import ScopedStyles.Script.Reader.Expression

/-!
# Reading markup

An element is read from its left angle to its last right angle, which stays the current token: what
follows is text if the element stands in another one, and a token of the script otherwise.
-/

namespace ScopedStyles.Script.Read

variable (g : Grammar)

/-- Names in markup may hold hyphens. -/
def scanMarkupName (c : Cursor) : Option (Token × Cursor) :=
  match c.rest with
  | ch :: _ =>
    if isIdentStart ch then
      let (name, rest) := c.rest.span fun ch => isIdentPart ch || ch = '-'
      some (.markupName (String.ofList name), c.skip name rest)
    else none
  | [] => none

def markupWord : Read Node := do
  let lo ← lo
  rescan scanMarkupName
  match ← token with
  | .markupName w =>
    advance
    node (.ident w false) lo []
  | _ => fail

/-- Names with points or a colon between them. -/
def markupNames : Nat → Node → Read Node
  | 0, _ => fail
  | fuel + 1, left => do
    if ← eat "." then
      let right ← markupWord
      markupNames fuel (← node .memberName left.lo [left, right])
    else return left

def namespaced : Read Node := do
  let first ← markupWord
  if ← eat ":" then
    let second ← markupWord
    node .namespacedName first.lo [first, second]
  else return first

def elementName : Read Node := do
  let first ← namespaced
  markupNames (← bound) first

/-- A string in a tag: no escapes, and it may run over lines. -/
def scanMarkupValue (c : Cursor) : Option (Token × Cursor) :=
  match c.rest with
  | q :: rest =>
    if q = '"' || q = '\'' then
      let (text, rest) := rest.span (· ≠ q)
      match rest with
      | _ :: rest =>
        let written := q :: text ++ [q]
        some (.string (some (String.ofList text)) (String.ofList written) false, c.skip written rest)
      | [] => none
    else Token.scan c
  | [] => Token.scan c

/-- An expression in braces, whose closing brace stays the current token. -/
def container : Read Node := do
  let lo ← lo
  expect "\x7b"
  let inner ←
    if ← isSign "\x7d" then pure (.mk .emptyExpr ⟨← Read.lo, ← Read.lo⟩ [])
    else inside (expression g)
  guard (← isSign "\x7d")
  return .mk .container ⟨lo, (← get).span.hi⟩ [inner]

def tagAttribute : Read Node := do
  let lo ← lo
  if ← isSign "\x7b" then
    advance
    let start ← Read.lo
    expect "..."
    let e ← inside g.assignment
    let spread ← node .spread start [e]
    expect "\x7d"
    return .mk .spreadAttribute spread.span [spread]
  else
    let name ← namespaced
    if ← isSign "=" then
      advanceWith scanMarkupValue
      let value ←
        match ← token with
        | .string .. => stringLit
        | .sign "\x7b" =>
          let c ← container g
          guard !(c.kids.all fun n => n.kind matches .emptyExpr)
          advance
          pure c
        | .sign "<" =>
          let e ← g.markup
          advance
          pure e
        | _ => fail
      node .attribute lo [name, value]
    else node .attribute lo [name, .absent]

/-- Passes over text, up to an angle or a brace. -/
def markupText : Read (List Node) := do
  let r ← get
  match Token.markupChars r.cursor.rest with
  | none => fail
  | some (text, rest) =>
    let cursor := r.cursor.skip text rest
    match Token.scan cursor with
    | none => fail
    | some (t, after) =>
      set { r with
        cursor := after, token := t, start := cursor, span := ⟨cursor.pos, after.pos⟩
        last := cursor.pos }
      return if text.isEmpty then []
        else [.mk (.markupText (String.ofList text)) ⟨r.cursor.pos, cursor.pos⟩ []]

/-- Whether the angle at the current token starts a closing tag. -/
def startsClosing : Read Bool := return (← isSign "<") && (← nextIs false fun t => t = .sign "/")

/-- What stands between two tags, up to the closing one. -/
def children : Nat → Read (List Node)
  | 0 => fail
  | fuel + 1 => do
    let text ← markupText
    if ← startsClosing then return text
    else if ← isSign "\x7b" then
      let lo ← lo
      if ← nextIs false fun t => t = .sign "..." then
        advance
        advance
        let e ← inside (expression g)
        guard (← isSign "\x7d")
        let child := Node.mk .spreadChild ⟨lo, (← get).span.hi⟩ [e]
        return text ++ child :: (← children fuel)
      else
        let child ← container g
        return text ++ child :: (← children fuel)
    else
      let child ← g.markup
      return text ++ child :: (← children fuel)

mutual

/-- Whether two names of tags are written alike. -/
def sameName : Node → Node → Bool
  | .mk (.ident a _) _ _, .mk (.ident b _) _ _ => a = b
  | .mk .memberName _ as, .mk .memberName _ bs => sameNames as bs
  | .mk .namespacedName _ as, .mk .namespacedName _ bs => sameNames as bs
  | _, _ => false

def sameNames : List Node → List Node → Bool
  | [], [] => true
  | a :: as, b :: bs => sameName a b && sameNames as bs
  | _, _ => false

end

/-- A node up to the right angle that is the current token. -/
def upToAngle (kind : Kind) (lo : Nat) (kids : List Node) : Read Node :=
  return .mk kind ⟨lo, (← get).span.hi⟩ kids

/-- The end of a tag, whose right angle stays the current token. -/
def tag (kind : Kind) (lo : Nat) (kids : List Node) : Read Node := do
  guard (← isSign ">")
  modify fun r => { r with token := .markupEnd }
  upToAngle kind lo kids

def markup : Read Node := do
  let lo ← lo
  expect "<"
  if ← isSign ">" then
    let cs ← children g (← bound)
    expect "<"
    expect "/"
    tag .fragment lo [.list cs]
  else
    let name ← elementName
    let targs ← optional ((← language).types && (← isSign "<")) (typeArguments g)
    let attrs ← many (return (← isSign ">") || (← isSign "/")) (tagAttribute g)
    if ← eat "/" then
      let opening ← tag (.opening true) lo [name, .list attrs, targs]
      upToAngle .element lo [opening, .list [], .absent]
    else
      let opening ← tag (.opening false) lo [name, .list attrs, targs]
      let cs ← children g (← bound)
      let start ← Read.lo
      expect "<"
      expect "/"
      let other ← elementName
      guard (sameName name other)
      let closing ← tag .closing start [other]
      upToAngle .element lo [opening, .list cs, closing]

end ScopedStyles.Script.Read
