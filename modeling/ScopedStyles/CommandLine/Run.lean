import ScopedStyles.CommandLine.Arguments
import ScopedStyles.Transform

/-!
# Runs of the command line

`CommandLine.run` transforms the files one after the other in one build and writes each before it
reads the next. It stops at the first failure; what was written before stays.
-/

namespace ScopedStyles.CommandLine

/-- Why a run stopped. -/
inductive Failure where
  | configUnreadable (path : Path) (fault : Disk.Fault)
  | configInvalid (path : Path) (error : Json.Error)
  | unreadable (file : Path) (fault : Disk.Fault)
  | malformed (file : Path)
  | noDirectory (dir : Path) (fault : Disk.Fault)
  | noFileName (file : Path)
  | unwritable (name : String) (fault : Disk.Fault)
deriving DecidableEq, Repr, Inhabited

/-- What is told of a failure, from the outside in. -/
def Failure.chain : Failure → List String
  | configUnreadable path fault => ["failed to read config " ++ path.text, fault.message]
  | configInvalid path error => ["invalid config " ++ path.text, error.message]
  | unreadable file fault => ["failed to read " ++ file.text, fault.message]
  | malformed file => ["failed to transform " ++ file.text, Transform.malformed file.text]
  | noDirectory dir fault => ["failed to create " ++ dir.text, fault.message]
  | noFileName file => [file.text ++ " has no file name"]
  | unwritable name fault => ["failed to write " ++ name, fault.message]

/-- A run so far: the build, the text for the standard output and the files written. -/
structure Run where
  build : Build
  stdout : String
  written : List Path
deriving Inhabited

def loadConfig (d : Disk) : Option Path → Except Failure Config
  | none => .ok .default
  | some path =>
    match d.readText path with
    | .error fault => .error (.configUnreadable path fault)
    | .ok text =>
      match Config.ofJson text with
      | .error e => .error (.configInvalid path e)
      | .ok c => .ok c

/-- The line that tells of a source map, behind the code. -/
def mapLine (mapName : String) : String := "\n//# sourceMappingURL=" ++ mapName ++ "\n"

/-- The name of the source map of a file, after what the file's name is shown as. -/
def mapNameOf (name : Bytes) : String := Bytes.text name ++ ".map"

/-- Writes a source map beside the file it belongs to, and gives the code with the line for it. -/
def writeMap (d : Disk) (dir : Path) (name : Bytes) (t : Transformed) :
    Disk × Except Failure String :=
  match t.sourceMap with
  | none => (d, .ok t.code)
  | some map =>
    let mapName := mapNameOf name
    match d.write (dir.join ⟨mapName⟩) (.text map.toJson.compact) with
    | .error fault => (d, .error (.unwritable mapName fault))
    | .ok d => (d, .ok (t.code ++ mapLine mapName))

/-- Writes a result into a directory, which is made if need be. -/
def writeOutput (d : Disk) (dir file : Path) (t : Transformed) : Disk × Except Failure Path :=
  match d.makeDirectories dir with
  | .error fault => (d, .error (.noDirectory dir fault))
  | .ok d =>
    match file.fileName? with
    | none => (d, .error (.noFileName file))
    | some name =>
      let out := dir.join ⟨name⟩
      match writeMap d dir name t with
      | (d, .error e) => (d, .error e)
      | (d, .ok code) =>
        match d.write out (.text code) with
        | .error fault => (d, .error (.unwritable out.text fault))
        | .ok d => (d, .ok out)

def withDisk (b : Build) (d : Disk) : Build := { b with disk := d }

/-- Hands a result over: to a file, or to the standard output. -/
def deliver (outDir : Option Path) (file : Path) (t : Transformed) (r : Run) :
    Run × Option Failure :=
  match outDir with
  | none => ({ r with stdout := r.stdout ++ t.code }, none)
  | some dir =>
    match writeOutput r.build.disk dir file t with
    | (d, .error e) => ({ r with build := withDisk r.build d }, some e)
    | (d, .ok out) => ({ r with build := withDisk r.build d, written := r.written ++ [out] }, none)

def runFile (a : Arguments) (file : Path) (r : Run) : Run × Option Failure :=
  match r.build.disk.readText file with
  | .error fault => (r, some (.unreadable file fault))
  | .ok source =>
    match Transform.run source file.text a.sourceMap r.build with
    | none => (r, some (.malformed file))
    | some (t, b) =>
      deliver a.outDir file t { r with build := b.tell (.transformed file t.replacements.length) }

/-- Runs through files up to the first failure. -/
def runFiles (a : Arguments) : List Path → Run → Run × Option Failure
  | [], r => (r, none)
  | file :: files, r =>
    match runFile a file r with
    | (r, some e) => (r, some e)
    | (r, none) => runFiles a files r

def run (a : Arguments) (d : Disk) : Run × Option Failure :=
  match loadConfig d a.config with
  | .error e => (⟨.start d (.ofConfig .default), "", []⟩, some e)
  | .ok c => runFiles a a.files ⟨.start d (.ofConfig c), "", []⟩

/-- A failure for the reader of the error output: what failed, and the causes below. -/
def report : List String → String
  | [] => ""
  | what :: causes =>
    "Error: " ++ what ++ "\n" ++
      if causes.isEmpty then ""
      else "\nCaused by:\n" ++ String.join (causes.map fun c => "    " ++ c ++ "\n")

/-- What a caller of the program sees: the exit code, the standard output, the disk behind it, and
what is told of a failure. -/
structure Result where
  code : Nat
  stdout : String
  disk : Disk
  chain : List String
deriving Inhabited

/-- The whole program on a list of arguments. -/
def call (args : List String) (d : Disk) : Result :=
  match Arguments.read args with
  | .error .displayHelp => ⟨0, helpText, d, []⟩
  | .error .displayVersion => ⟨0, versionText, d, []⟩
  | .error _ => ⟨2, "", d, []⟩
  | .ok a =>
    match run a d with
    | (r, none) => ⟨0, r.stdout, r.build.disk, []⟩
    | (r, some e) => ⟨1, r.stdout, r.build.disk, e.chain⟩

end ScopedStyles.CommandLine
