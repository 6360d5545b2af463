import ScopedStyles.Config
import ScopedStyles.Disk
import ScopedStyles.Css.Sheet.Reader
import ScopedStyles.Stage.Scoping
import ScopedStyles.Stage.Discarding

/-!
# Pipelines

A stage changes a sheet and reports on it; it sees nothing but the sheet and its path.
`Pipeline.process` reads a text, applies the stages in order and prints the sheet.
-/

namespace ScopedStyles

/-- Why a stylesheet could not be processed. -/
inductive Failure where
  | unresolved (path : Path) (fault : Disk.Fault)
  | unreadable (path : Path) (fault : Disk.Fault)
  | unwritable (path : Path) (fault : Disk.Fault)
  | malformed (path : Path)
  | stage (name message : String)
deriving DecidableEq, Repr, Inhabited

namespace Failure

def accessText (action : String) (path : Path) (fault : Disk.Fault) : String :=
  "cannot " ++ action ++ " stylesheet " ++ path.text ++ ": " ++ fault.message

def message : Failure → String
  | unresolved path fault => accessText "resolve" path fault
  | unreadable path fault => accessText "read" path fault
  | unwritable path fault => accessText "write" path fault
  | malformed path => "failed to parse stylesheet " ++ path.text ++ ": "
  | stage name text => "stage `" ++ name ++ "` failed: " ++ text

end Failure

structure Stage where
  name : String
  run : Path → Css.Sheet → Except Failure (Css.Sheet × List Message)
deriving Inhabited

namespace Stage

def scopeClasses (naming : Naming) : Stage where
  name := scopingStage
  run := fun path sheet =>
    let (sheet, m) := Scoping.run naming path sheet
    .ok (sheet, [m])

def discardEmpty : Stage where
  name := Discarding.stageName
  run := fun _ sheet => .ok (Discarding.run sheet)

def ofConfig : StageConfig → Stage
  | .scopeClasses pattern => scopeClasses ⟨pattern⟩
  | .discardEmpty => discardEmpty

/-- A stage that only reports. -/
def reporting (name : String) (m : Message) : Stage where
  name := name
  run := fun _ sheet => .ok (sheet, [m])

/-- A stage that always fails. -/
def failing (name text : String) : Stage where
  name := name
  run := fun _ _ => .error (.stage name text)

end Stage

/-- A processed stylesheet: its text and what the stages reported. -/
structure Output where
  css : String
  messages : List Message
deriving DecidableEq, Repr, Inhabited

def Output.classMap? (o : Output) : Option ClassMap := classMapOf? o.messages

abbrev Pipeline := List Stage

namespace Pipeline

def ofConfig (c : Config) : Pipeline := c.stages.map Stage.ofConfig

/-- Applies the stages in order, keeping all messages. -/
def run (path : Path) : Pipeline → Css.Sheet → Except Failure (Css.Sheet × List Message)
  | [], sheet => .ok (sheet, [])
  | s :: rest, sheet => do
    let (sheet, ms) ← s.run path sheet
    let (sheet, more) ← run path rest sheet
    return (sheet, ms ++ more)

/-- A stylesheet's text with its byte order mark removed, if it has one. -/
def withoutMark (text : String) : String :=
  match text.toList with
  | c :: cs => if c.toNat = 0xFEFF then String.ofList cs else text
  | [] => text

def read (path : Path) (text : String) : Except Failure Css.Sheet :=
  match Css.Sheet.read (withoutMark text) with
  | some sheet => .ok sheet
  | none => .error (.malformed path)

def process (stages : Pipeline) (text : String) (path : Path) : Except Failure Output := do
  let (sheet, messages) ← run path stages (← read path text)
  return ⟨sheet.text, messages⟩

end Pipeline

end ScopedStyles
