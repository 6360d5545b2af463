import ScopedStyles.Script.Reader.Function

/-!
# Reading expressions

Operators are read by strength: `operators` gathers those that bind tighter than a bound. What stands
in parentheses is read once, as expressions or annotated patterns, and becomes the parameters of an
arrow function if an arrow follows.
-/

namespace ScopedStyles.Script

namespace Token

/-- Whether an expression may start with the token. -/
def startsExpr : Token → Bool
  | .name w =>
    !reservedWords.contains w || ["this", "super", "null", "true", "false", "function", "class",
      "new", "delete", "typeof", "void", "import"].contains w
  | .sign s =>
    ["(", "[", "\x7b", "+", "-", "!", "~", "++", "--", "<", "/", "/=", "`", "#"].contains s
  | .eof | .markupName _ | .markupEnd => false
  | _ => true

/-- How tightly an operator binds. -/
def strength (op : String) : Nat :=
  if op = "??" || op = "||" then 1
  else if op = "&&" then 2
  else if op = "|" then 3
  else if op = "^" then 4
  else if op = "&" then 5
  else if ["==", "!=", "===", "!=="].contains op then 6
  else if ["<", ">", "<=", ">=", "in", "instanceof", "as", "satisfies"].contains op then 7
  else if ["<<", ">>", ">>>"].contains op then 8
  else if op = "+" || op = "-" then 9
  else if op = "*" || op = "/" || op = "%" then 10
  else if op = "**" then 11
  else 0

def isBinarySign : Token → Bool
  | .sign s => strength s ≠ 0
  | _ => false

end Token

namespace Read

variable (g : Grammar)

/-- An expression inside brackets of its own. -/
def inside (p : Read Node) : Read Node := withMode (·.bracketed) p

/-- One expression or several with commas between them. -/
def expression : Read Node := do
  let lo ← lo
  match ← separated "," g.assignment with
  | [e] => return e
  | es => node .sequence lo es

/-! ## Literals -/

def regexLit : Read Node := do
  let lo ← lo
  rescan Token.scanRegex
  match ← token with
  | .regex w =>
    advance
    node (.regex w) lo []
  | _ => fail

def template (mayBeMalformed : Bool) : Read Node := do
  let lo ← lo
  guard (← isSign "`")
  let (es, chunks) ← templateParts mayBeMalformed (inside (expression g)) (← bound)
  node .template lo [.list es, .list chunks]

def spreadOr (item : Read Node) : Read Node := do
  let lo ← lo
  if ← eat "..." then
    let e ← inside g.assignment
    node .spread lo [e]
  else inside item

def arrayItem : Read Node := do
  if ← isSign "," then return hole else spreadOr g g.assignment

def arrayLit : Read Node := do
  let lo ← lo
  expect "["
  let (items, endsInComma) ← commaList "]" (arrayItem g)
  expect "]"
  node (.array endsInComma) lo items

/-! ## Objects -/

/-- A word that could mark a parameter as a property, in a place where it marks nothing. -/
def strayMark : Read Bool := do
  let isStray ← match ← token with
    | .name w => pure ((← language).types && ("readonly" :: accessWords).contains w)
    | _ => pure false
  let marks := (← nextIs false isName) || (← nextIs true fun t => t = .sign "[" || t = .sign "\x7b")
  if isStray && marks then
    advance
    return true
  else return false

def objectFunction (marks : FunctionMarks) (params : Read (List Node)) : Read Node :=
  withMode (fun m => { m with hasSuper := true, inClass := false }) (functionFrom g marks params)

/-- A function that is a property, from behind its name on. -/
def methodProp (lo : Nat) (marks : FunctionMarks) (key : Node) : Read Node := do
  let f ← objectFunction g marks (parameters g)
  node (.methodProp marks) lo [key, f]

/-- A property from behind a word that changes it. -/
def changedProp (lo : Nat) (w : String) : Read Node := do
  let isGenerator ← if w = "async" then eat "*" else pure false
  let key ← propertyName g
  if w = "async" then methodProp g lo ⟨true, isGenerator⟩ key
  else
    let f ← objectFunction g .plain (if w = "get" then getterParameters g else setterParameters g)
    match f.kids with
    | [params, body, _, r] =>
      if w = "get" then node .getterProp lo [key, r, body]
      else node .setterProp lo [key, .list (params.kids.map Node.parameterPattern), body]
    | _ => fail

def property : Read Node := do
  let lo ← lo
  if ← eat "..." then
    let e ← g.assignment
    node .spread lo [e]
  else if ← eat "*" then
    let key ← propertyName g
    methodProp g lo ⟨false, true⟩ key
  else
    let isMarked ← strayMark
    let key ← propertyName g
    if ← eat ":" then
      let e ← inside g.assignment
      node .keyValue lo [key, e]
    else if ← startsMethod then methodProp g lo .plain key
    else
      match key.kind with
      | .ident w _ =>
        if ← eat "=" then
          let e ← inside g.assignment
          node .assignProp lo [key, e]
        else if (← isSign ",") || (← isSign "\x7d") then return key
        else
          guard (["get", "set", "async"].contains w)
          check (!isMarked)
          changedProp g lo w
      | _ => fail

def objectLit : Read Node := do
  let lo ← lo
  expect "\x7b"
  let (props, endsInComma) ← commaList "\x7d" (inside (property g))
  expect "\x7d"
  node (.object endsInComma) lo props

/-! ## Words -/

def word (kind : Kind) : Read Node := do
  let lo ← lo
  advance
  node kind lo []

def superWord : Read Node := do
  guard (← mode).hasSuper
  let n ← word .superWord
  guard ((← isSign ".") || (← isSign "[") || (← isSign "("))
  return n

def arguments : Read Node := do
  expect "("
  let es ← commas ")" (spreadOr g g.assignment)
  expect ")"
  return .list es

/-- A call that loads a module, or what the module knows of itself. -/
def importExpr : Read Node := do
  let lo ← lo
  expectWord "import"
  if ← eat "." then
    guard !(← mode).undecided
    let called (phase : Phase) : Read Node := do
      advance
      let callee ← node (.importWord phase) lo []
      let args ← arguments g
      node .call lo [callee, args, .absent]
    if ← isWord "meta" then
      check (← mode).isModule
      advance
      node (.metaProperty "import.meta") lo []
    else if ← isWord "source" then called .source
    else if ← isWord "defer" then called .deferred
    else fail
  else
    let callee ← node (.importWord .evaluation) lo []
    let args ← arguments g
    check (args.kids.length = 1 || args.kids.length = 2)
    node .call lo [callee, args, .absent]

def memberName : Read Node := do
  match ← token with
  | .privateName _ => privateName
  | _ => anyName

def computedKey : Read Node := do
  let lo ← lo
  expect "["
  let e ← inside (expression g)
  expect "]"
  node .computed lo [e]

/-! ## Operators -/

def operator? : Read (Option String) := do
  match ← token with
  | .sign s => return if Token.strength s = 0 then none else some s
  | .name w =>
    if w = "in" then return if (← mode).allowIn then some w else none
    else if w = "instanceof" then return some w
    else if w = "as" || w = "satisfies" then
      return if (← language).types && !(← newLine) then some w else none
    else return none
  | _ => return none

def scanAngles (c : Cursor) : Option (Token × Cursor) := do
  let (s, rest) ← Token.angleSign c.rest
  return (.sign s, c.skip s.toList rest)

/-- Whether an operand may not stand bare beside `??`, or beside another logical operator. -/
def mixes (op : String) (e : Node) : Bool :=
  match e.kind with
  | .binary inner =>
    op = "??" && (inner = "||" || inner = "&&") || (op = "||" || op = "&&") && inner = "??"
  | _ => false

def mayBeBase (e : Node) : Bool := !(e.kind matches .unary _ | .await_)

/-- Goes on from an operand with operators that bind tighter than a bound. -/
def operators : Nat → Nat → Node → Read Node
  | 0, _, _ => fail
  | fuel + 1, least, left => do
    if ← isSign ">" then rescan scanAngles
    match ← operator? with
    | none => return left
    | some op =>
      if Token.strength op ≤ least then return left
      else
        advance
        if op = "as" && (← isWord "const") then
          advance
          operators fuel least (← node .asConst left.lo [left])
        else if op = "as" || op = "satisfies" then
          let t ← g.type
          operators fuel least
            (← node (if op = "as" then .asExpr else .satisfies) left.lo [left, t])
        else
          guard (op ≠ "**" || mayBeBase left)
          let first ← g.operand
          let right ← operators fuel (if op = "**" then 10 else Token.strength op) first
          check !(mixes op left || mixes op right)
          operators fuel least (← node (.binary op) left.lo [left, right])

def assignOperators : List String :=
  ["=", "+=", "-=", "*=", "/=", "%=", "**=", "<<=", ">>=", ">>>=", "&=", "|=", "^=", "&&=", "||=",
    "??="]

/-- An assignment to what stands on its left, if one follows. -/
def assignmentFrom (left : Node) : Read Node := do
  match ← token with
  | .sign op =>
    if assignOperators.contains op then
      let target ← toTarget
        (if op = "=" then Node.target? else fun strict n =>
          if n.isSimpleTarget strict then some n else none) left
      advance
      let right ← g.assignment
      node (.assign op) left.lo [target, right]
    else return left
  | _ => return left

/-- The two alternatives behind a test, from the question mark on. -/
def alternatives (test : Node) : Read Node := do
  expect "?"
  let yes ← withMode (fun m => { m with allowIn := true, colonFollows := true }) g.assignment
  expect ":"
  let no ← withMode (fun m => { m with colonFollows := false }) g.assignment
  node .conditional test.lo [test, yes, no]

/-! ## Parentheses and arrow functions -/

/-- A parameter with what types add to it, from behind its name on. -/
def annotatedItem (lo : Nat) (isOptional : Bool) (e : Node) : Read Node := do
  let p ← match e with
    | .mk .spread s [e] => do
      let p ← toTarget (Node.element? true) e
      pure (.mk (.rest s.lo) s [p, .absent])
    | e => toTarget (Node.element? true) e
  let ann ← annotation? g
  match annotated true true isOptional ann (← last) p with
  | none => fail
  | some p =>
    if ← eat "=" then
      let value ← inside g.assignment
      node .assignPattern lo [p, value]
    else return p

/-- What may stand in parentheses: an expression, a rest, or a pattern with its type. -/
def parenItem : Read Node := inside do
  let start ← lo
  let types := (← language).types
  let isMarked ← strayMark
  let lo ← lo
  let spreads ← isSign "..."
  let startsName ← if spreads then nextIsReference false else isReference
  let e ←
    if types && startsName then withMode (fun m => { m with arrowAt := start }) do
      let _ ← eat "..."
      let first ← g.operand
      if first.isArrow then pure first
      else
        let e ← operators g (← bound) 0 first
        if spreads then node .spread lo [e] else assignmentFrom g e
    else spreadOr g g.assignment
  let endsHere ← nextIs false fun
    | .sign s => [",", "=", ")", ":"].contains s
    | _ => false
  let isOptional := types && (← isSign "?") && endsHere
  if isOptional then
    advance
    guard (e.kind matches .ident ..)
  let e ← if types && (← isSign "?") && !spreads then alternatives g e else pure e
  check (!isMarked)
  if isOptional || types && (← isSign ":") then annotatedItem g lo isOptional e else return e

def parenItems : Read (List Node × Bool) := do
  expect "("
  let r ← commaList ")" (parenItem g)
  expect ")"
  return r

def isPatternItem (n : Node) : Bool :=
  (n.kind matches .rest _ | .binding | .arrayPattern _ | .objectPattern _ | .assignPattern)

/-- An object with a default behind a name, which only patterns have. -/
def isUnfinished (n : Node) : Bool :=
  match n.kind with
  | .object _ => n.kids.any fun p => (p.kind matches .assignProp)
  | _ => false

/-- An arrow function if an arrow follows, perhaps behind a type. -/
def arrow? (lo : Nat) (marks : FunctionMarks) (mayBeArrow : Bool) (items : List Node)
    (endsInComma : Bool) : Read (Option Node) := do
  let typed := (← language).types && (← isSign ":")
  let colonFollows := (← mode).colonFollows
  let finish (endsInComma : Bool) (returns : Node) : Read Node := do
    let ps ← toParameters endsInComma items
    check !((← mode).strict && Node.anyReserved ps)
    arrowFrom g lo marks ps returns
  let early ← if !(typed && colonFollows) then pure none else tried do
    let r ← returnAnnotation? g
    let f ← finish false r
    guard (← isSign ":")
    return f
  match early with
  | some f => return some f
  | none =>
    let returns ← if !typed || colonFollows then pure none else tried do
      let r ← returnAnnotation? g
      guard (← isSign "=>")
      return r
    if items.any isPatternItem || returns.isSome || (← isSign "=>") then
      guard (mayBeArrow && !(← newLine))
      let f ← finish endsInComma (returns.getD .absent)
      let hasBlock := f.kids[1]?.any fun b => b.kind matches .block
      check !(hasBlock && (← token).isBinarySign)
      return some f
    else
      check !(items.any isUnfinished)
      return none

/-- Parentheses around expressions, or the arrow function whose parameters they hold. -/
def parenthesized : Read Node := do
  let lo ← lo
  let mayBeArrow := (← mode).arrowAt = lo
  let (items, endsInComma) ← parenItems g
  let hi ← last
  match ← arrow? g lo .plain mayBeArrow items endsInComma with
  | some f => return f
  | none =>
    guard (items.all fun n => !(n.kind matches .spread))
    match items with
    | [] => fail
    | [e] => return .mk .paren ⟨lo, hi⟩ [e]
    | e :: es =>
      let stop := ((e :: es).getLast?.map Node.hi).getD e.hi
      return .mk .paren ⟨lo, hi⟩ [.mk .sequence ⟨e.lo, stop⟩ items]

def nameParameter (name : Node) : Node := .mk .binding name.span [name, .absent]

/-- A name from behind it on: the parameter of an arrow function if an arrow follows. Behind the
word `async` the parameter may follow first. -/
def nameOrArrow (lo : Nat) (isAsync : Bool) (name : Node) : Read Node := do
  let m ← mode
  if m.arrowAt ≠ lo || (← newLine) then return name
  else if isAsync && (← isReference) then
    let isHead := m.loopHead.isSome && (← isWord "of") && !(← nextIs false (· = .sign "=>"))
    if isHead then
      check (m.loopHead = some true)
      return name
    else
      let isAs ← isWord "as"
      let param ← bindingName
      if (← language).types && isAs && !(← isSign "=>") then
        let t ← g.type
        node .asExpr lo [name, t]
      else arrowFrom g lo ⟨true, false⟩ [nameParameter param] .absent
  else if ← isSign "=>" then arrowFrom g lo .plain [nameParameter name] .absent
  else return name

def identifier : Read Node := do
  let lo ← lo
  nameOrArrow g lo false (← reference)

/-- An arrow function behind the word `async`, from its type parameters on. -/
def genericAsync (lo : Nat) : Read Node := do
  expectWord "async"
  let tps ← typeParameters g false false
  let ps ← parameters g
  let r ← returnAnnotation? g
  match ← arrowFrom g lo ⟨true, false⟩ (ps.map Node.parameterPattern) r with
  | .mk k s [ps, body, _, r] => return .mk k s [ps, body, tps, r]
  | _ => fail

/-- What starts with the word `async`: an arrow function, a function, a call or a plain name. -/
def asyncExpr : Read Node := do
  let lo ← lo
  let mayBeArrow := (← mode).arrowAt = lo
  let mayBeGeneric := mayBeArrow && (← language).types && (← nextIs false (· = .sign "<"))
  if ← nextIs true (· = .name "function") then
    advance
    functionExpr g lo true
  else
    match ← if mayBeGeneric then tried (genericAsync g lo) else pure none with
    | some f => return f
    | none =>
      let isCall := mayBeArrow && (← nextIs true (· = .sign "("))
      let name ← anyName
      if isCall then
        let (items, endsInComma) ← parenItems g
        let hi ← last
        match ← arrow? g lo ⟨true, false⟩ true items endsInComma with
        | some f => return f
        | none => return .mk .call ⟨lo, hi⟩ [name, .list items, .absent]
      else nameOrArrow g lo true name

/-! ## Operands -/

/-- An operand that does not start with `new`. -/
def primary : Read Node := do
  let lo ← lo
  match ← token with
  | .name w =>
    if w = "this" then word .this
    else if w = "null" then word .null
    else if w = "true" then word (.boolean true)
    else if w = "false" then word (.boolean false)
    else if w = "super" then superWord
    else if w = "function" then functionExpr g lo false
    else if w = "class" then
      let (name, body) ← classParts g false false
      node .classExpr lo [name, body]
    else if w = "import" then importExpr g
    else if w = "async" then asyncExpr g
    else identifier g
  | .string .. => stringLit
  | .number .. | .bigint _ => numberLit
  | .privateName _ =>
    guard (← nextIs false (· = .name "in"))
    privateName
  | .sign s =>
    if s = "/" || s = "/=" then regexLit
    else if s = "`" then template g false
    else if s = "[" then arrayLit g
    else if s = "\x7b" then objectLit g
    else if s = "(" then parenthesized g
    else if s = "<" && (← language).markup then
      let e ← g.markup
      advance
      return e
    else fail
  | _ => fail

def isMarkup (n : Node) : Bool := (n.kind matches .element | .fragment)

/-! ## Members and calls -/

/-- Whether type arguments may end before the current token with no call behind them. -/
def endsInstantiation : Read Bool := do
  match ← token with
  | .sign s =>
    if ["<", ">", "<<", "+", "-", "(", "`"].contains s then return false
    else return (← newLine) || Token.strength s ≠ 0 || !(Token.sign s).startsExpr
  | t => return (← newLine) || !t.startsExpr

/-- Whether type arguments alone may stand behind an operand. -/
def mayInstantiate (e : Node) : Bool :=
  !(e.kind matches .call | .optionalCall _ | .nonNull | .taggedTemplate | .newCall)

def taggedTemplate (tag : Node) (args : Node) : Read Node := do
  let t ← withMode (fun m => { m with colonFollows := false }) (template g true)
  node .taggedTemplate tag.lo [tag, args, t]

/-- Type arguments with what they are for. -/
def typedStep (calls : Bool) (callKind : Kind) (inChain : Bool) (e : Node) :
    Read (Node × Bool) := do
  let targs ← typeArguments g
  if calls && (← isSign "(") then
    let args ← withMode (fun m => { m with colonFollows := false }) (arguments g)
    return (← node callKind e.lo [e, args, targs], inChain)
  else if ← isSign "`" then
    check (!inChain)
    return (← taggedTemplate g e targs, false)
  else
    let ends := (← isSign "=") || (← isWord "as") || (← isWord "satisfies") ||
      (mayInstantiate e && (← endsInstantiation))
    guard ends
    return (← node .instantiation e.lo [e, targs], false)

/-- A step of a chain behind its sign. -/
def chainStep (e : Node) : Read Node := do
  let called (targs : Node) : Read Node := do
    let args ← withMode (fun m => { m with colonFollows := false }) (arguments g)
    node (.optionalCall true) e.lo [e, args, targs]
  if ← isSign "(" then called .absent
  else if ← isSign "[" then
    let key ← computedKey g
    node (.optionalMember true) e.lo [e, key]
  else if (← language).types && (← startsAngle) then called (← typeArguments g)
  else
    let key ← memberName
    node (.optionalMember true) e.lo [e, key]

/-- A step behind an operand: a member, a call, a template; none if nothing fits. The step says
whether a chain goes on. -/
def step? (calls : Bool) (inChain : Bool) (e : Node) : Read (Option (Node × Bool)) := do
  let types := (← language).types
  let memberKind : Kind := if inChain then .optionalMember false else .member
  let callKind : Kind := if inChain then .optionalCall false else .call
  if ← eat "." then
    let key ← memberName
    guard !(e.kind matches .superWord && key.isPrivateName)
    return some (← node memberKind e.lo [e, key], inChain)
  else if ← isSign "[" then
    let key ← computedKey g
    return some (← node memberKind e.lo [e, key], inChain)
  else if ← eat "?." then
    guard (calls && !(e.kind matches .superWord))
    return some (← chainStep g e, true)
  else if calls && (← isSign "(") then
    let args ← withMode (fun m => { m with colonFollows := false }) (arguments g)
    return some (← node callKind e.lo [e, args, .absent], inChain)
  else if ← isSign "`" then
    check (!inChain)
    return some (← taggedTemplate g e .absent, false)
  else if types && (← isSign "!") && !(← newLine) then
    advance
    return some (← node .nonNull e.lo [e], inChain)
  else if types && (← startsAngle) then tried (typedStep g calls callKind inChain e)
  else return none

def steps (calls : Bool) : Nat → Bool → Node → Read Node
  | 0, _, _ => fail
  | fuel + 1, inChain, e => do
    match ← step? g calls inChain e with
    | some (e, inChain) => steps calls fuel inChain e
    | none => return e

/-- A word `new` with what it makes and the arguments. -/
def newExpr : Nat → Read Node
  | 0 => fail
  | fuel + 1 => do
    let lo ← lo
    expectWord "new"
    if ← eat "." then
      let m ← mode
      check (m.ownFunction || m.inParameters || m.inClass)
      expectWord "target"
      node (.metaProperty "new.target") lo []
    else
      let first ← if ← isWord "new" then newExpr fuel else
        guard !((← isWord "import") && (← nextIs false (· = .sign "(")))
        primary g
      guard !first.isArrow
      let callee ← steps g false (← bound) false first
      let (callee, targs) ← match callee with
        | .mk .instantiation _ [e, targs] => pure (e, targs)
        | e =>
          let targs ← if !((← language).types && (← startsAngle)) then pure none else tried do
            let targs ← typeArguments g
            guard (← isSign "(")
            return targs
          pure (e, targs.getD Node.absent)
      let args ← optional (← isSign "(")
        (withMode (fun m => { m with colonFollows := false }) (arguments g))
      node .newCall lo [callee, args, targs]

/-- An operand with its members and calls. -/
def leftHandSide : Read Node := do
  let first ← if ← isWord "new" then newExpr g (← bound) else primary g
  if first.isArrow || isMarkup first then return first else steps g true (← bound) false first

def postfixUpdate : Read Node := do
  let e ← leftHandSide g
  if e.isArrow then return e
  else if ((← isSign "++") || (← isSign "--")) && !(← newLine) then
    check (e.mayBeUpdated (← mode).strict)
    let sign := if ← isSign "++" then "++" else "--"
    advance
    node (.update sign false) e.lo [e]
  else return e

/-! ## Signs before operands -/

/-- What is waited for, or a variable of that name, from behind the word on. -/
def awaitFrom (lo : Nat) : Read Node := do
  let m ← mode
  guard !(← isSign "*")
  let ends := (← newLine) || (match ← token with
    | .sign s => [";", "\x7d", ")", "]", ","].contains s
    | .eof => true
    | _ => false)
  if ends && !m.isAsync then
    check !(m.isModule || m.inStaticBlock)
    node (.ident "await" false) lo []
  else
    guard (m.isModule || !m.topLevel || m.isAsync)
    check (m.isAsync || !m.inFunction)
    check !(m.inParameters && !m.inFunction)
    let e ← g.operand
    node .await_ lo [e]

/-- An operand with the signs before and behind it. -/
def operand : Read Node := do
  let lo ← lo
  match ← token with
  | .sign s =>
    if s = "++" || s = "--" then
      advance
      let e ← g.operand
      check (e.mayBeUpdated (← mode).strict)
      node (.update s true) lo [e]
    else if s = "+" || s = "-" || s = "~" || s = "!" then
      advance
      node (.unary s) lo [← g.operand]
    else if s = "<" && (← language).types && !(← language).markup then
      advance
      if ← eatWord "const" then
        expect ">"
        node .asConst lo [← g.operand]
      else
        let t ← g.type
        expect ">"
        node .typeAssertion lo [← g.operand, t]
    else postfixUpdate g
  | .name w =>
    if w = "delete" || w = "void" || w = "typeof" then
      advance
      let e ← g.operand
      let deletesName := w = "delete" && e.kind matches .ident ..
      check !((← mode).strict && deletesName && !(← language).types)
      node (.unary w) lo [e]
    else if w = "await" then
      advance
      awaitFrom g lo
    else postfixUpdate g
  | _ => postfixUpdate g

/-- An operand with the operators behind it. -/
def binary : Read Node := do
  let first ← g.operand
  if first.isArrow then return first else operators g (← bound) 0 first

def conditional : Read Node := do
  let test ← binary g
  if !test.isArrow && (← isSign "?") then alternatives g test else return test

def yieldExpr : Read Node := do
  let lo ← lo
  let m ← mode
  guard !(m.inParameters && !m.inFunction)
  advance
  let ends := (← newLine) || (match ← token with
    | .sign "*" => false
    | t => !t.startsExpr)
  if ends then node (.yield_ false) lo [.absent]
  else
    let delegate ← eat "*"
    let e ← g.assignment
    node (.yield_ delegate) lo [e]

def plainAssignment : Read Node := do
  if (← mode).isGenerator && (← isWord "yield") then yieldExpr g
  else
    let left ← conditional g
    if left.isArrow then return left else assignmentFrom g left

/-- An arrow function with type parameters. -/
def genericArrow : Read Node := do
  let lo ← lo
  let tps ← typeParameters g false true
  let start ← Read.lo
  let f ← withMode (fun m => { m with arrowAt := start }) (plainAssignment g)
  match f with
  | .mk (.arrow m) s [ps, body, _, r] => return .mk (.arrow m) ⟨lo, s.hi⟩ [ps, body, tps, r]
  | _ => fail

def assignment : Read Node := do
  let lo ← lo
  withMode (fun m => { m with arrowAt := lo }) do
    let l ← language
    if l.types && (← isSign "<") then
      if l.markup then
        match ← attempt (plainAssignment g) with
        | some e => return e
        | none => withMode (fun m => { m with trial := true }) (genericArrow g)
      else
        match ← tried (genericArrow g) with
        | some f => return f
        | none => plainAssignment g
    else plainAssignment g

end Read

end ScopedStyles.Script
