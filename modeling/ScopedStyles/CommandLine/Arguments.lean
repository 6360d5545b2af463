import ScopedStyles.Path

/-!
# Arguments of the command line

`Arguments.read` goes through the arguments from left to right. Values gather behind an option or as
files until something else starts; only then are they checked and kept. What must be given is asked
for at the end.
-/

namespace ScopedStyles.CommandLine

structure Arguments where
  config : Option Path
  outDir : Option Path
  sourceMap : Bool
  verbose : Bool
  files : List Path
deriving DecidableEq, Repr, Inhabited

/-- Why there is nothing to run: a mistake, or a wish to be told about the program. -/
inductive Usage where
  | unknownArgument | missingRequiredArgument | invalidValue | argumentConflict | tooManyValues
  | displayHelp | displayVersion
deriving DecidableEq, Repr, Inhabited

/-- What stands behind a program's name. -/
inductive Flag where
  | config | outDir | sourceMap | verbose | help | version
deriving DecidableEq, Repr, Inhabited

namespace Flag

def ofLong? (name : String) : Option Flag :=
  match name with
  | "config" => some config
  | "out-dir" => some outDir
  | "source-map" => some sourceMap
  | "verbose" => some verbose
  | "help" => some help
  | "version" => some version
  | _ => none

def ofShort? (c : Char) : Option Flag :=
  match c with
  | 'c' => some config
  | 'o' => some outDir
  | 'v' => some verbose
  | 'h' => some help
  | 'V' => some version
  | _ => none

def takesValue : Flag → Bool
  | config | outDir => true
  | _ => false

end Flag

/-- Values that are not checked yet. -/
inductive Pending where
  | nothing
  | flag (f : Flag) (value : Option String)
  | files (values : List String)
deriving DecidableEq, Repr, Inhabited

structure Reading where
  found : Arguments
  pending : Pending
deriving DecidableEq, Repr, Inhabited

namespace Arguments

def none : Arguments := ⟨.none, .none, false, false, []⟩

/-- Keeps the value of an option, which may be given once and is not empty. -/
def setValue (a : Arguments) (f : Flag) (value : String) : Except Usage Arguments :=
  let path : Option Path := some ⟨value⟩
  match f with
  | .config =>
    if a.config.isSome then .error .argumentConflict
    else if value = "" then .error .invalidValue else .ok { a with config := path }
  | .outDir =>
    if a.outDir.isSome then .error .argumentConflict
    else if value = "" then .error .invalidValue else .ok { a with outDir := path }
  | _ => .ok a

/-- Keeps a flag without a value, which may be given once. -/
def setFlag (a : Arguments) : Flag → Except Usage Arguments
  | .sourceMap => if a.sourceMap then .error .argumentConflict else .ok { a with sourceMap := true }
  | .verbose => if a.verbose then .error .argumentConflict else .ok { a with verbose := true }
  | .help => .error .displayHelp
  | .version => .error .displayVersion
  | .config | .outDir => .ok a

def addFiles (a : Arguments) (values : List String) : Except Usage Arguments :=
  if values.contains "" then .error .invalidValue
  else .ok { a with files := a.files ++ values.map fun value => ⟨value⟩ }

/-- What must be given: a file, and a directory if there are to be source maps. -/
def complete (a : Arguments) : Except Usage Arguments :=
  if a.files.isEmpty || (a.sourceMap && a.outDir.isNone) then .error .missingRequiredArgument
  else .ok a

end Arguments

namespace Reading

/-- Checks and keeps the values that wait. -/
def settle (r : Reading) : Except Usage Reading :=
  match r.pending with
  | .nothing => .ok r
  | .flag _ none => .error .invalidValue
  | .flag f (some value) => do return ⟨← r.found.setValue f value, .nothing⟩
  | .files values => do return ⟨← r.found.addFiles values, .nothing⟩

def flag (r : Reading) (f : Flag) : Except Usage Reading := do
  let r ← r.settle
  return { r with found := ← r.found.setFlag f }

/-- An option with its value in the same argument, or with none so far. -/
def option (r : Reading) (f : Flag) (value : Option String) : Except Usage Reading := do
  let r ← r.settle
  match value with
  | some value => return { r with found := ← r.found.setValue f value }
  | none => return { r with pending := .flag f none }

/-- A value: that of the option before it, or a file. -/
def value (r : Reading) (isLast : Bool) (s : String) : Except Usage Reading := do
  match r.pending with
  | .flag f none => if isLast then .error .invalidValue else .ok { r with pending := .flag f (some s) }
  | .files values => .ok { r with pending := .files (values ++ [s]) }
  | _ =>
    let r ← r.settle
    return { r with pending := .files [s] }

def splitValue (cs : List Char) : List Char × Option String :=
  match cs.span (· ≠ '=') with
  | (name, _ :: value) => (name, some (String.ofList value))
  | (name, []) => (name, none)

def long (r : Reading) (cs : List Char) : Except Usage Reading :=
  let (name, value) := splitValue cs
  match Flag.ofLong? (String.ofList name) with
  | none => .error .unknownArgument
  | some f =>
    if f.takesValue then r.option f value
    else if value.isSome then .error .tooManyValues
    else r.flag f

/-- Several letters behind one hyphen; what follows an option's letter is its value. -/
def short (r : Reading) : List Char → Except Usage Reading
  | [] => .ok r
  | c :: cs =>
    match Flag.ofShort? c with
    | none => .error .unknownArgument
    | some f =>
      if f.takesValue then
        match cs with
        | [] => r.option f none
        | '=' :: value => r.option f (some (String.ofList value))
        | value => r.option f (some (String.ofList value))
      else do
        let r ← r.flag f
        short r cs

/-- One argument; behind two hyphens alone there are files only. -/
def argument (r : Reading) (arg : String) : Except Usage Reading :=
  match arg.toList with
  | '-' :: '-' :: name => r.long name
  | '-' :: c :: cs => r.short (c :: cs)
  | _ => r.value false arg

def all (r : Reading) : List String → Except Usage Reading
  | [] => r.settle
  | "--" :: files => do
    let r ← files.foldlM (fun r s => r.value true s) r
    r.settle
  | arg :: args => do
    let r ← r.argument arg
    r.all args

end Reading

/-- The arguments of a run, or why there is none. -/
def Arguments.read (args : List String) : Except Usage Arguments := do
  let r ← Reading.all ⟨.none, .nothing⟩ args
  r.found.complete

/-! ## What is told about the program -/

def helpText : String :=
  "Inline CSS module class names into JS/TS sources\n\n" ++
  "Usage: stylemap [OPTIONS] <FILES>...\n\n" ++
  "Arguments:\n" ++
  "  <FILES>...  Source files to transform\n\n" ++
  "Options:\n" ++
  "  -c, --config <CONFIG>    Processor config (JSON). Defaults to a single css-modules stage\n" ++
  "  -o, --out-dir <OUT_DIR>  Write transformed files into this directory instead of stdout\n" ++
  "      --source-map         Write a `.map` file next to each output (requires --out-dir)\n" ++
  "  -v, --verbose            Log debug output; RUST_LOG takes precedence when set\n" ++
  "  -h, --help               Print help\n" ++
  "  -V, --version            Print version\n"

def versionText : String := "stylemap 0.1.0\n"

end ScopedStyles.CommandLine
