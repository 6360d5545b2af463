import ScopedStyles.Script.Reader.Item
import ScopedStyles.Script.Reader.Markup

/-!
# Reading scripts

`Program.read` reads a whole source as a script, as a module, or as what it turns out to be: a
script unless only a module may hold what stands in it. The grammars refer to each other through
`Grammar.at`, which ties them together to a depth that no source of a given length reaches.
-/

namespace ScopedStyles.Script

/-- The grammars with references that go a number of levels deep. -/
def Grammar.at : Nat → Grammar
  | 0 => ⟨.fail, .fail, .fail, .fail, .fail, .fail, .fail, .fail, .fail⟩
  | n + 1 => {
    assignment := fun r => Read.assignment (Grammar.at n) r
    operand := fun r => Read.operand (Grammar.at n) r
    leftHandSide := fun r => Read.leftHandSide (Grammar.at n) r
    pattern := fun r => Read.pattern (Grammar.at n) r
    statement := fun r => Read.statement (Grammar.at n) r
    body := fun r => Read.body (Grammar.at n) r
    item := fun r => Read.item (Grammar.at n) r
    type := fun r => Read.type (Grammar.at n) r
    markup := fun r => Read.markup (Grammar.at n) r }

/-- What a source is read as. -/
inductive Goal where
  | script
  | module
  | either
deriving DecidableEq, Repr, Inhabited

namespace Mode

/-- The mode at the top of a script or a module. -/
def top (isModule undecided : Bool) : Mode where
  isModule := isModule
  undecided := undecided
  strict := isModule
  topLevel := true
  inFunction := false
  ownFunction := false
  isAsync := false
  isGenerator := false
  inParameters := false
  inStaticBlock := false
  inField := false
  inClass := false
  hasParent := false
  hasSuper := false
  allowIn := true
  breakAllowed := false
  continueAllowed := false
  labels := []
  allowConditional := true
  colonFollows := false
  ambient := false
  loopHead := none
  arrowAt := 0
  trial := false

end Mode

namespace Program

/-- Positions in the first source start here. -/
def start : Nat := 1

/-- The first line, if it is for the shell, and the cursor behind it. -/
def shebang? (c : Cursor) : Option String × Cursor :=
  match c.rest with
  | '#' :: '!' :: cs =>
    let (line, rest) := cs.span fun ch => !isLineEnd ch
    (some (String.ofList line), c.skip ('#' :: '!' :: line) rest)
  | _ => (none, c)

def withoutMark (text : String) : List Char :=
  match text.toList with
  | '\uFEFF' :: cs => cs
  | cs => cs

/-- The items of a source up to its end. -/
def items (isModule : Bool) (depth : Nat) : Read (List Node) := do
  Read.begin
  let g := Grammar.at depth
  Read.bodyItems Read.isEof (if isModule then g.item else g.statement)

def readAs (language : Language) (isModule undecided : Bool) (text : String) :
    Option (Program × Comments) := do
  let cs := withoutMark text
  let (shebang, cursor) := shebang? ⟨cs, start⟩
  let before : Reading := {
    language := language
    mode := .top isModule undecided
    cursor := cursor
    token := .eof
    start := cursor
    span := ⟨cursor.pos, cursor.pos⟩
    newLine := false
    last := cursor.pos
    begun := shebang.isSome
    trails := false
    afterOperator := false
    comments := .empty }
  let (body, after) ← items isModule (64 + 16 * cs.length) before
  return (⟨isModule, shebang, ⟨start, after.last⟩, body⟩, after.comments)

/-- Reads a source; none if it is not of the language. -/
def read (language : Language) (goal : Goal) (text : String) : Option (Program × Comments) :=
  match goal with
  | .script => readAs language false false text
  | .module => readAs language true false text
  | .either => readAs language false true text <|> readAs language true false text

end Program

end ScopedStyles.Script
