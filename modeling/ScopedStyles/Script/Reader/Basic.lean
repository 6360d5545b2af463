import ScopedStyles.Script.Comment
import ScopedStyles.Script.Token

/-!
# Reading scripts token by token

A reader holds one token and the text behind it. Comments are put at their places as tokens are
passed, and a reader that tries one grammar and then another forgets those of the first.
`Grammar` names the grammars that refer to each other; each is one step of reading, given all
others one level less deep.
-/

namespace ScopedStyles.Script

/-- Which extensions a source is written in. -/
structure Language where
  types : Bool
  markup : Bool
deriving DecidableEq, Repr, Inhabited

/-- Where in a program the reader stands. -/
structure Mode where
  /-- Import and export may stand at the top. -/
  isModule : Bool
  /-- A script that becomes a module if a word of modules stands in it. -/
  undecided : Bool
  strict : Bool
  /-- Outside blocks and functions, where a module may wait. -/
  topLevel : Bool
  inFunction : Bool
  /-- Inside a function that is no arrow. -/
  ownFunction : Bool
  isAsync : Bool
  isGenerator : Bool
  inParameters : Bool
  inStaticBlock : Bool
  inField : Bool
  inClass : Bool
  /-- The class around a member extends another one. -/
  hasParent : Bool
  hasSuper : Bool
  /-- The word `in` is an operator. -/
  allowIn : Bool
  breakAllowed : Bool
  continueAllowed : Bool
  labels : List String
  /-- The word `extends` starts a conditional type. -/
  allowConditional : Bool
  /-- A colon must follow an arrow function that has a return type. -/
  colonFollows : Bool
  ambient : Bool
  /-- Inside the head of a loop; true in one that waits for its values. -/
  loopHead : Option Bool
  /-- Where an arrow function may start. -/
  arrowAt : Nat
  /-- A grammar is tried, and some rules hold only outside of trials. -/
  trial : Bool
deriving Repr, Inhabited

structure Reading where
  language : Language
  mode : Mode
  cursor : Cursor
  token : Token
  start : Cursor
  span : Span
  newLine : Bool
  last : Nat
  begun : Bool
  trails : Bool
  afterOperator : Bool
  comments : Comments
deriving Inhabited

/-- A reader fails on a text outside its grammar. -/
abbrev Read (α : Type) := StateT Reading Option α

/-! ## Between tokens -/

/-- The text between two tokens while it is passed: the comments that wait for the next token, and
where that token counts as starting if not at its own first character. -/
structure Gap where
  cursor : Cursor
  newLine : Bool
  pending : List Comment
  comments : Comments
  anchor : Option Cursor

namespace Gap

/-- The text of a block comment and what follows it. -/
def blockText : List Char → Option (List Char × List Char)
  | [] => none
  | '*' :: '/' :: rest => some ([], rest)
  | c :: cs => do
    let (text, rest) ← blockText cs
    return (c :: text, rest)

/-- A comment goes to the token before it or waits for the next one. -/
def put (g : Gap) (r : Reading) (waits : Bool) (c : Comment) : Gap :=
  if waits then { g with pending := g.pending ++ [c] }
  else { g with comments := g.comments.addTrailing r.last [c] }

/-- Passes a comment that runs to the end of its line, from behind its opening signs on. -/
def passLine (r : Reading) (g : Gap) (lo : Nat) (signs cs : List Char) : Gap :=
  let (text, rest) := cs.span fun c => !isLineEnd c
  let cursor := g.cursor.skip (signs ++ text) rest
  { g with cursor := cursor }.put r (g.newLine || r.afterOperator)
    ⟨false, String.ofList text, ⟨lo, cursor.pos⟩⟩

/-- Passes a comment in the manner of markup, which may stand in scripts only; the token behind it
starts with it. -/
def passMarkup (r : Reading) (g : Gap) (skipped : Nat) (signs cs : List Char) : Gap :=
  { passLine r g (g.cursor.pos + skipped) signs cs with anchor := g.anchor <|> some g.cursor }

/-- Passes blanks, line ends and comments. -/
def pass (r : Reading) : Nat → Gap → Option Gap
  | 0, _ => none
  | fuel + 1, g =>
    match g.cursor.rest with
    | [] => some g
    | '/' :: '/' :: cs => pass r fuel (passLine r g g.cursor.pos ['/', '/'] cs)
    | '/' :: '*' :: cs => do
      let (text, rest) ← blockText cs
      let cursor := g.cursor.skip ('/' :: '*' :: text ++ ['*', '/']) rest
      let c : Comment := ⟨true, String.ofList text, ⟨g.cursor.pos, cursor.pos⟩⟩
      let waits := (g.newLine || !r.trails) && rest.head? ≠ some ';'
      let g := { g with cursor := cursor }.put r waits c
      pass r fuel { g with newLine := g.newLine || text.any isLineEnd }
    | '<' :: '!' :: '-' :: '-' :: cs =>
      if r.mode.isModule then none else pass r fuel (passMarkup r g 1 ['<', '!', '-', '-'] cs)
    | c :: cs =>
      if isBlank c then pass r fuel { g with cursor := g.cursor.next c cs }
      else if isLineEnd c then pass r fuel { g with cursor := g.cursor.next c cs, newLine := true }
      else
        match g.newLine, c, cs with
        | true, '-', '-' :: '>' :: cs =>
          if r.mode.isModule then none else pass r fuel (passMarkup r g 3 ['-', '-', '>'] cs)
        | _, _, _ => some g

/-- Where the token behind the gap counts as starting. -/
def start (g : Gap) : Cursor := g.anchor.getD g.cursor

/-- Hands the waiting comments over to the token behind the gap. -/
def settle (g : Gap) (r : Reading) (t : Token) : Comments :=
  if t = .eof then
    if r.begun then g.comments.addTrailing r.last g.pending
    else g.comments.addLeading r.last g.pending
  else g.comments.addLeading g.start.pos g.pending

/-- A word that has no meaning of its own is written together with the comment it starts with. -/
def spell (g : Gap) (t : Token) (stop : Cursor) : Token :=
  match g.anchor, t with
  | some a, .name w =>
    if Token.keywords.contains w || Token.contextualWords.contains w then t
    else .name (String.ofList (a.rest.take (a.rest.length - stop.rest.length)))
  | _, _ => t

end Gap

namespace Read

/-- The state once the current token has been passed, with the gap behind it. -/
def passed (r : Reading) : Reading :=
  { r with last := r.span.hi, trails := r.token.trails, afterOperator := r.token.isOperator }

def enter (r : Reading) (newLine : Bool) (scan : Cursor → Option (Token × Cursor)) :
    Option Reading := do
  let g ← Gap.pass r (r.cursor.rest.length + 1) ⟨r.cursor, newLine, [], r.comments, none⟩
  let (t, c) ← scan g.cursor
  return { r with
    cursor := c, token := g.spell t c, start := g.cursor, span := ⟨g.start.pos, c.pos⟩
    newLine := g.newLine, comments := g.settle r t, begun := r.begun || t ≠ .eof }

/-- Goes on to the next token, read by a scanner of the caller's choice. -/
def advanceWith (scan : Cursor → Option (Token × Cursor)) : Read Unit := fun r => do
  return ((), ← enter (passed r) false scan)

def advance : Read Unit := advanceWith Token.scan

/-- Reads the first token, which counts as standing on a line of its own. -/
def begin : Read Unit := fun r => do
  return ((), ← enter r true Token.scan)

/-- Reads the current token anew from its start. -/
def rescan (scan : Cursor → Option (Token × Cursor)) : Read Unit := fun r => do
  let (t, c) ← scan r.start
  return ((), { r with cursor := c, token := t, span := ⟨r.span.lo, c.pos⟩ })

def fail {α : Type} : Read α := fun _ => none

/-- The result of a reader, or none with nothing read. -/
def attempt {α : Type} (p : Read α) : Read (Option α) := fun r =>
  match p r with
  | some (a, r') => some (some a, r')
  | none => some (none, r)

def orElse {α : Type} (p q : Read α) : Read α := fun r =>
  match p r with
  | some x => some x
  | none => q r

/-- Reads without going on. -/
def ahead (p : Read Bool) : Read Bool := fun r =>
  match p r with
  | some (b, _) => some (b, r)
  | none => some (false, r)

def token : Read Token := return (← get).token
def lo : Read Nat := return (← get).span.lo
def last : Read Nat := return (← get).last
def newLine : Read Bool := return (← get).newLine
def mode : Read Mode := return (← get).mode
def language : Read Language := return (← get).language

/-- A bound on the number of tokens still to come. -/
def bound : Read Nat := return (← get).cursor.rest.length + 2

def withMode {α : Type} (change : Mode → Mode) (p : Read α) : Read α := do
  let before := (← get).mode
  modify fun r => { r with mode := change r.mode }
  let a ← p
  modify fun r => { r with mode := before }
  return a

def guard (b : Bool) : Read Unit := if b then return () else fail

/-- A rule that need not hold while a grammar is tried. -/
def check (b : Bool) : Read Unit := do guard (b || (← mode).trial)

/-- The result of a grammar that is tried, or none with nothing read. -/
def tried {α : Type} (p : Read α) : Read (Option α) :=
  attempt (withMode (fun m => { m with trial := true }) p)

def isSign (s : String) : Read Bool := return (← get).token == .sign s
def isWord (w : String) : Read Bool := return (← get).token == .name w
def isEof : Read Bool := return (← get).token == .eof

def eat (s : String) : Read Bool := do
  if ← isSign s then
    advance
    return true
  else return false

def eatWord (w : String) : Read Bool := do
  if ← isWord w then
    advance
    return true
  else return false

def expect (s : String) : Read Unit := do guard (← eat s)
def expectWord (w : String) : Read Unit := do guard (← eatWord w)

/-- Whether the token behind the current one passes a test; where the test wants it, with no line
end before it. -/
def nextIs (sameLine : Bool) (test : Token → Bool) : Read Bool := ahead do
  advance
  return test (← token) && !(sameLine && (← newLine))

/-- A part that may be missing. -/
def optional (present : Bool) (p : Read Node) : Read Node := if present then p else return .absent

/-- A node from a position up to the last token passed. -/
def node (kind : Kind) (lo : Nat) (kids : List Node) : Read Node := do
  return .mk kind ⟨lo, ← last⟩ kids

/-- A statement ends at a semicolon, before a closing brace, at the end, or before a line end. -/
def semicolon : Read Unit := do
  if ← eat ";" then return ()
  else guard ((← isSign "\x7d") || (← isEof) || (← newLine))

/-- Items up to a stop, at most as many as there are tokens. -/
def untilStop {α : Type} (stop : Read Bool) (item : Read α) : Nat → Read (List α)
  | 0 => fail
  | fuel + 1 => do
    if ← stop then return []
    else
      let a ← item
      return a :: (← untilStop stop item fuel)

def many {α : Type} (stop : Read Bool) (item : Read α) : Read (List α) := do
  untilStop stop item (← bound)

/-- Items with commas between them up to a closing sign, which stays, and whether a comma stands
before that sign. -/
def commaList {α : Type} (close : String) (item : Read α) : Read (List α × Bool) := do
  let items ← many (isSign close) do
    let a ← item
    if ← isSign close then return (a, false)
    else
      expect ","
      return (a, ← isSign close)
  return (items.map (·.1), (items.getLast?.map (·.2)).getD false)

def commas {α : Type} (close : String) (item : Read α) : Read (List α) := do
  return (← commaList close item).1

/-- Further operands while there is a sign before them. -/
def separated (s : String) (item : Read Node) : Read (List Node) := do
  let first ← item
  let rest ← many (return !(← isSign s)) do
    advance
    item
  return first :: rest

/-! ## Names -/

def isName : Token → Bool
  | .name _ => true
  | _ => false

/-- Any word, reserved or not. -/
def anyName : Read Node := do
  let lo ← lo
  match ← token with
  | .name w =>
    advance
    node (.ident w false) lo []
  | _ => fail

/-- Whether a word may name a variable. -/
def isUsable (m : Mode) (w : String) : Bool :=
  !Token.reservedWords.contains w &&
  !(m.strict && Token.strictWords.contains w) &&
  !(w = "yield" && m.isGenerator) &&
  !(w = "await" && (m.isAsync || m.isModule || m.inStaticBlock))

/-- Whether the current word may name a variable. -/
def isReference : Read Bool := do
  match ← token with
  | .name w => return isUsable (← mode) w
  | _ => return false

/-- Whether the token behind the current one is a word that may name a variable. -/
def nextIsReference (sameLine : Bool) : Read Bool := do
  let m ← mode
  nextIs sameLine fun
    | .name w => isUsable m w
    | _ => false

def reference : Read Node := do
  guard (← isReference)
  check (!((← mode).inField && (← isWord "arguments")))
  anyName

/-- A word that may name a new variable. -/
def bindingName : Read Node := do
  match ← token with
  | .name w =>
    let m ← mode
    let isThis := w = "this" && (← language).types
    guard (isThis || !Token.reservedWords.contains w)
    check !(m.strict && (Token.strictWords.contains w || w = "arguments" || w = "eval"))
    check !(w = "await" && (m.isAsync || m.isModule || m.inStaticBlock))
    check !(w = "yield" && m.isGenerator)
    anyName
  | _ => fail

def privateName : Read Node := do
  let lo ← lo
  match ← token with
  | .privateName w =>
    advance
    node (.privateName w) lo []
  | _ => fail

def stringLit : Read Node := do
  let lo ← lo
  match ← token with
  | .string value written old =>
    guard (!(old && (← mode).strict))
    advance
    node (.string value (some written)) lo []
  | _ => fail

def numberLit : Read Node := do
  let lo ← lo
  match ← token with
  | .number written legacy =>
    guard (!(legacy && (← mode).strict))
    advance
    node (.number written) lo []
  | .bigint written =>
    advance
    node (.bigint written) lo []
  | _ => fail

end Read

/-- The grammars that refer to each other. -/
structure Grammar where
  assignment : Read Node
  /-- An operand with the signs before and behind it. -/
  operand : Read Node
  leftHandSide : Read Node
  pattern : Read Node
  statement : Read Node
  /-- A statement that is the body of another one. -/
  body : Read Node
  item : Read Node
  type : Read Node
  /-- An element, up to its last right angle, which stays the current token. -/
  markup : Read Node
deriving Inhabited

end ScopedStyles.Script
