import ScopedStyles.Json.Error
import ScopedStyles.Pipeline
import ScopedStyles.Text.Quoted

/-!
# Builds

A build processes each stylesheet once. `Build.processFile` reads a file, writes the processed
text back and records the result under the file's place; later references to the same place get
the record. A call that fails changes neither the disk nor the records.
-/

namespace ScopedStyles

/-- What a build tells about its work. -/
inductive Event where
  | processing (path : Path) (stages : List String)
  | alreadyProcessed (path : Path)
  | unsupportedForm (specifier : String)
  | leftFailed (specifier : String) (path : Path) (failure : Failure)
  | leftUnmapped (specifier : String) (path : Path)
  | transformed (file : Path) (stylesheets : Nat)
  | badConfig (error : Json.Error)
deriving DecidableEq, Repr, Inhabited

inductive Level where
  | debug | info | error
deriving DecidableEq, Repr, Inhabited

namespace Event

def level : Event → Level
  | processing .. | alreadyProcessed _ | unsupportedForm _ => .debug
  | transformed .. => .info
  | leftFailed .. | leftUnmapped .. | badConfig _ => .error

def message : Event → String
  | processing .. => "processing stylesheet"
  | alreadyProcessed _ => "stylesheet already processed in this build"
  | unsupportedForm _ => "unsupported stylesheet import form, left as-is"
  | leftFailed .. => "failed to generate class name mapping, import left untransformed"
  | leftUnmapped .. => "pipeline produced no class name mapping, import left untransformed"
  | transformed .. => "transformed"
  | badConfig _ => "invalid plugin config, using default stages"

/-- Further details by name. -/
def fields : Event → List (String × String)
  | processing path stages => [("path", path.text), ("stages", Text.quotedList stages)]
  | alreadyProcessed path => [("path", path.text)]
  | unsupportedForm specifier => [("specifier", specifier)]
  | leftFailed specifier path failure =>
    [("specifier", specifier), ("path", path.text), ("error", failure.message)]
  | leftUnmapped specifier path => [("specifier", specifier), ("path", path.text)]
  | transformed file n => [("file", file.text), ("stylesheets", toString n)]
  | badConfig error => [("error", error.message)]

end Event

/-- The stages and the results so far, by place and in order of first success. -/
structure Processor where
  stages : Pipeline
  records : List (Place × Output)
deriving Inhabited

namespace Processor

def fresh (stages : Pipeline) : Processor := ⟨stages, []⟩

def ofConfig (c : Config) : Processor := fresh (Pipeline.ofConfig c)

def stageNames (p : Processor) : List String := p.stages.map Stage.name

def record? (p : Processor) (place : Place) : Option Output := p.records.lookup place

/-- The files processed so far. -/
def processed (p : Processor) : List Path := p.records.map fun (place, _) => Disk.pathOf place

end Processor

/-- A disk and a processor at work on it, with the events so far. -/
structure Build where
  disk : Disk
  processor : Processor
  events : List Event
deriving Inhabited

namespace Build

def start (disk : Disk) (processor : Processor) : Build := ⟨disk, processor, []⟩

def tell (b : Build) (e : Event) : Build := { b with events := b.events ++ [e] }

/-- Processes a file that is not recorded yet. -/
def processNew (b : Build) (place : Place) : Except Failure Output × Build :=
  let path := Disk.pathOf place
  let b := b.tell (.processing path b.processor.stageNames)
  match b.disk.readAt place >>= Disk.asText with
  | .error fault => (.error (.unreadable path fault), b)
  | .ok text =>
    match b.processor.stages.process text path with
    | .error failure => (.error failure, b)
    | .ok output =>
      (.ok output, { b with
        disk := b.disk.put place (.file (.text output.css))
        processor := { b.processor with
          records := b.processor.records ++ [(place, output)] } })

def processFile (b : Build) (path : Path) : Except Failure Output × Build :=
  match b.disk.locate path with
  | .error fault => (.error (.unresolved path fault), b)
  | .ok place =>
    match b.processor.record? place with
    | some output => (.ok output, b.tell (.alreadyProcessed (Disk.pathOf place)))
    | none => b.processNew place

/-- The class map of a file, none if no stage scopes classes. -/
def classMap (b : Build) (path : Path) : Except Failure (Option ClassMap) × Build :=
  let (result, b) := b.processFile path
  (result.map Output.classMap?, b)

end Build

end ScopedStyles
