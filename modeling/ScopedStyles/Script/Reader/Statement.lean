import ScopedStyles.Script.Reader.Expression

/-!
# Reading statements

Statements, and the declarations of variables, functions, classes and types. A statement in a list
may declare what the body of another statement may not.
-/

namespace ScopedStyles.Script.Read

variable (g : Grammar)

/-- The body of a loop. -/
def looping : Read Node :=
  withMode (fun m => { m with breakAllowed := true, continueAllowed := true }) g.body

def block : Read Node := do
  let lo ← lo
  expect "\x7b"
  let ss ← withMode (fun m => { m with topLevel := false }) (many (isSign "\x7d") g.statement)
  expect "\x7d"
  node .block lo ss

def parens : Read Node := do
  expect "("
  let e ← inside (expression g)
  expect ")"
  return e

/-! ## Variables -/

def isLoopWord : Read Bool := return (← isWord "of") || (← isWord "in")

/-- A variable and its value, which is asked for where one is needed. -/
def declarator (w : Variable) (inHead : Bool) : Read Node := do
  let lo ← lo
  guard !((w matches .let_ | .const_) && (← isWord "let"))
  let p ← g.pattern
  let isPlain := p.kind matches .binding
  if (← language).types && isPlain then
    let _ ← eat "!"
  let p ← annotatedPattern g (return p)
  let value ← optional (← eat "=") g.assignment
  let m ← mode
  let isFree := !value.isAbsent || m.ambient || inHead && (← isLoopWord)
  if !isFree then
    if w = .const_ && !inHead then check false else guard isPlain
  node .declarator lo [p, value]

/-- Whether the word `let` declares variables and names none. -/
def letDeclares : Read Bool := do
  if ← isWord "let" then
    nextIs false fun
      | .name w => !Token.reservedWords.contains w || w = "enum"
      | .sign s => s = "[" || s = "\x7b"
      | _ => false
  else return false

def variablesFrom (lo : Nat) (isDeclare : Bool) (w : Variable) : Read Node := do
  advance
  let ds ← separated "," (declarator g w false)
  semicolon
  node (.variables w isDeclare) lo ds

/-- Whether the word `using` declares variables and names none. -/
def usingDeclares : Read Bool := return (← isWord "using") && (← nextIs true isName)

/-- Variables that are let go of at the end of their block. -/
def usingFrom (lo : Nat) (w : Variable) : Read Node := do
  check (← language).types
  let n ← variablesFrom g lo false w
  check (n.kids.all fun d => match d.kids with
    | [.mk .binding _ _, value] => !value.isAbsent
    | _ => false)
  return n

/-! ## Loops -/

/-- The parts of a loop behind its first one, up to the closing parenthesis. -/
def forParts (first : Node) : Read (Kind × List Node) := do
  expect ";"
  let test ← optional (!(← isSign ";")) (inside (expression g))
  expect ";"
  let update ← optional (!(← isSign ")")) (inside (expression g))
  return (.for_, [first, test, update])

/-- What a loop takes its values from, behind what it sets. -/
def forValues (isAwait : Bool) (left : Node) : Read (Kind × List Node) := do
  if ← eatWord "of" then
    let right ← inside g.assignment
    return (.forOf isAwait, [left, right])
  else
    expectWord "in"
    let right ← inside (expression g)
    return (.forIn, [left, right])

/-- Whether variables may stand before the values of a loop. -/
def mayTakeValues (isIn strict types : Bool) (ds : List Node) : Bool :=
  match ds.map Node.kids with
  | [[p, value]] =>
    (value.isAbsent || isIn && !strict) && !(types && p.kids.getLast?.any (!Node.isAbsent ·))
  | _ => false

def forVariables (isAwait : Bool) (lo : Nat) (w : Variable) : Read (Kind × List Node) := do
  advance
  let inValues (m : Mode) : Mode := { m with allowIn := w ≠ .var_ }
  let ds ← withMode inValues (separated "," (declarator g w true))
  let left ← node (.variables w false) lo ds
  if ← isLoopWord then
    check (mayTakeValues (← isWord "in") (← mode).strict (← language).types ds)
    forValues g isAwait left
  else forParts g left

/-- The word that an expression may turn out to be in place of a declaration. -/
def usingWord? : Node → Option Variable
  | .mk (.ident "using" _) _ _ => some .using_
  | .mk .await_ _ [.mk (.ident "using" _) _ _] => some .awaitUsing
  | _ => none

/-- The head of a loop from behind its opening parenthesis. -/
def forHead (isAwait : Bool) : Read (Kind × List Node) := do
  let lo ← lo
  let types := (← language).types
  if ← isWord "var" then forVariables g isAwait lo .var_
  else if ← isWord "const" then forVariables g isAwait lo .const_
  else if ← letDeclares then forVariables g isAwait lo .let_
  else if ← isSign ";" then forParts g .absent
  else
    let e ← withMode (fun m => { m with allowIn := false }) (expression g)
    let declares := types && !(← isWord "of") && (← nextIs false fun t =>
      t = .name "of" || t = .name "in")
    match if declares then usingWord? e else none with
    | some w =>
      let name ← bindingName
      let d ← node .declarator lo [.mk .binding name.span [name, .absent], .absent]
      let left ← node (.variables w false) lo [d]
      check !(← isWord "in")
      forValues g isAwait left
    | none =>
      if ← isLoopWord then
        let target ← toTarget Node.loopTarget? e
        check !(types && (← isWord "in") && !(target.kind matches .ident ..) &&
          (target.kind matches .arrayPattern _ | .objectPattern _))
        forValues g isAwait target
      else forParts g e

def forStatement : Read Node := do
  let lo ← lo
  expectWord "for"
  let isAwait ← eatWord "await"
  expect "("
  let (kind, parts) ← withMode (fun m => { m with loopHead := some isAwait }) (forHead g isAwait)
  expect ")"
  let body ← looping g
  guard (!isAwait || kind matches .forOf _)
  node kind lo (parts ++ [body])

/-! ## Other statements -/

def ifStatement : Read Node := do
  let lo ← lo
  expectWord "if"
  let test ← parens g
  let yes ← g.body
  let no ← optional (← eatWord "else") g.body
  node .if_ lo [test, yes, no]

def doStatement : Read Node := do
  let lo ← lo
  expectWord "do"
  let body ← looping g
  expectWord "while"
  let test ← parens g
  let _ ← eat ";"
  node .doWhile lo [test, body]

def whileStatement : Read Node := do
  let lo ← lo
  expectWord "while"
  let test ← parens g
  let body ← looping g
  node .while_ lo [test, body]

def switchCase : Read Node := do
  let lo ← lo
  let test ← if ← eatWord "default" then pure .absent else
    expectWord "case"
    inside (expression g)
  expect ":"
  let ss ← many (return (← isWord "case") || (← isWord "default") || (← isSign "\x7d")) g.statement
  node .case_ lo [test, .list ss]

def switchStatement : Read Node := do
  let lo ← lo
  expectWord "switch"
  let e ← parens g
  expect "\x7b"
  let inCases (m : Mode) : Mode := { m with breakAllowed := true, topLevel := false }
  let cs ← withMode inCases (many (isSign "\x7d") (switchCase g))
  expect "\x7d"
  guard ((cs.filter fun c => c.kids.head?.any Node.isAbsent).length ≤ 1)
  node .switch lo [e, .list cs]

def catchClause : Read Node := do
  let lo ← lo
  expectWord "catch"
  let param ←
    if ← eat "(" then
      let p ← annotatedPattern g g.pattern
      expect ")"
      pure p
    else pure .absent
  let body ← block g
  node .catch_ lo [param, body]

def tryStatement : Read Node := do
  let lo ← lo
  expectWord "try"
  let body ← block g
  let handler ← optional (← isWord "catch") (catchClause g)
  let final ← optional (← eatWord "finally") (block g)
  guard !(handler.isAbsent && final.isAbsent)
  node .try_ lo [body, handler, final]

def returnStatement : Read Node := do
  let lo ← lo
  check (← mode).inFunction
  expectWord "return"
  let ends := (← isSign ";") || (← isSign "\x7d") || (← isEof) || (← newLine)
  let e ← optional (!ends) (inside (expression g))
  semicolon
  node .return_ lo [e]

def throwStatement : Read Node := do
  let lo ← lo
  expectWord "throw"
  guard !(← newLine)
  let e ← inside (expression g)
  semicolon
  node .throw_ lo [e]

/-- A jump out of what is around it, or to its next round, perhaps by a label. -/
def jump (w : String) (kind : Kind) (allowed : Mode → Bool) : Read Node := do
  let lo ← lo
  expectWord w
  let label ← optional (!(← newLine) && isName (← token)) reference
  let m ← mode
  check (allowed m)
  match label.kind with
  | .ident l _ => check (m.labels.contains l)
  | _ => pure ()
  semicolon
  node kind lo [label]

def withStatement : Read Node := do
  let lo ← lo
  check !((← mode).strict || (← language).types)
  expectWord "with"
  let e ← parens g
  let body ← withMode (fun m => { m with inFunction := true, topLevel := false }) g.body
  node .with_ lo [e, body]

def expressionStatement : Read Node := do
  let lo ← lo
  let e ← expression g
  semicolon
  node .exprStmt lo [e]

/-- A statement that starts with a wait. Only binary operators go on with it, so `await a, b;` and
`await a ? b : c;` are errors here though they are not inside of other statements; what follows need
not be set off. -/
def awaitStatement (lo : Nat) : Read Node := do
  let m ← mode
  guard (m.isModule || !m.topLevel)
  advance
  if ← usingDeclares then usingFrom g lo .awaitUsing
  else
    let e ← awaitFrom g lo
    let e ← operators g (← bound) 0 e
    let _ ← eat ";"
    node .exprStmt lo [e]

/-- A statement that loads a module; what follows it need not be set off. -/
def importStatement (lo : Nat) : Read Node := do
  let e ← expression g
  let _ ← eat ";"
  node .exprStmt lo [e]

/-! ## Functions and classes -/

def functionDeclaration (lo : Nat) (isDeclare isAsync : Bool) : Read Node := do
  let (name, f) ← functionParts g isAsync false true
  node (.functionDecl isDeclare) lo [name, f]

/-- Whether the word `async` stands before a function. -/
def startsAsyncFunction : Read Bool := do
  return (← isWord "async") && (← nextIs true (· = .name "function"))

def asyncDeclaration (lo : Nat) : Read Node := do
  expectWord "async"
  functionDeclaration g lo false true

def classDeclaration (lo : Nat) (isDeclare isAbstract : Bool) : Read Node := do
  let (name, body) ← classParts g isAbstract true
  node (.classDecl isDeclare isAbstract) lo [name, body]

/-- A statement with a label, which a function may have outside of strict code. -/
def labeled : Read Node := do
  let lo ← lo
  let label ← reference
  expect ":"
  match label.kind with
  | .ident l _ =>
    check !(← mode).labels.contains l
    let inside (m : Mode) : Mode := { m with labels := l :: m.labels, breakAllowed := true }
    let body ← withMode inside do
      if ← isWord "function" then
        check !((← mode).strict || (← nextIs false (· = .sign "*")))
        functionDeclaration g (← Read.lo) false false
      else g.body
    node .labeled lo [label, body]
  | _ => fail

/-! ## Types -/

/-- An interface from its name on. -/
def interfaceFrom (lo : Nat) (isDeclare : Bool) : Read Node := do
  let name ← anyName
  check !(namesType name)
  let tps ← typeParameters? g true false
  let parents ← if ← eatWord "extends" then heritages g else pure []
  let start ← Read.lo
  let ms ← typeMembers g
  let body ← node .typeLiteral start ms
  node (.interface isDeclare) lo [name, tps, .list parents, body]

/-- A name for a type, from the name on. -/
def aliasFrom (lo : Nat) (isDeclare : Bool) : Read Node := do
  let name ← anyName
  let tps ← typeParameters? g true false
  expect "="
  let t ← g.type
  semicolon
  node (.typeAlias isDeclare) lo [name, tps, t]

/-- The name of a member of an enumeration: a word or a string, perhaps in brackets. -/
def enumName : Read Node := do
  match ← token with
  | .string .. => stringLit
  | .sign "[" =>
    advance
    let e ← inside (expression g)
    expect "]"
    match e with
    | .mk (.string v w) s _ => return .mk (.string v w) s []
    | .mk .template _ [.mk .list _ [], .mk .list _ [.mk (.quasi w) s _]] =>
      return .mk (.string (Token.templateText? w) none) s []
    | _ => fail
  | _ => anyName

def enumMember : Read Node := do
  let lo ← lo
  let name ← enumName g
  let value ← optional (← eat "=") (inside g.assignment)
  node .enumMember lo [name, value]

/-- An enumeration from its name on. -/
def enumFrom (lo : Nat) (isDeclare isConst : Bool) : Read Node := do
  let name ← anyName
  expect "\x7b"
  let ms ← commas "\x7d" (enumMember g)
  expect "\x7d"
  node (.enum isDeclare isConst) lo [name, .list ms]

def startsConstEnum : Read Bool := do
  return (← isWord "const") && (← nextIs false (· = .name "enum"))

def constEnum (lo : Nat) (isDeclare : Bool) : Read Node := do
  expectWord "const"
  expectWord "enum"
  enumFrom g lo isDeclare true

def moduleBlock : Read Node := do
  let lo ← lo
  expect "\x7b"
  let items ← withMode (fun m => { m with topLevel := false }) (many (isSign "\x7d") g.item)
  expect "\x7d"
  node .moduleBlock lo items

/-- A namespace from its first name on; a name behind a point is a namespace within. -/
def namespaceFrom (isDeclare : Bool) (word : String) (lo : Nat) : Nat → Read Node
  | 0 => fail
  | fuel + 1 => do
    let start ← Read.lo
    let name ← anyName
    let body ← if ← eat "." then namespaceFrom isDeclare word start fuel else moduleBlock g
    node (.module_ isDeclare false word) lo [name, body]

/-- A module that stands for a file or for the world around all files, from its name on. -/
def outerModule (lo : Nat) (isDeclare : Bool) : Read Node := do
  let isGlobal ← isWord "global"
  let name ← if isGlobal then anyName else stringLit
  let body ← if ← isSign "\x7b" then moduleBlock g else
    semicolon
    pure .absent
  node (.module_ isDeclare isGlobal "module") lo [name, body]

/-- A module from its word on; one that has no string for its name is a namespace. -/
def moduleFrom (lo : Nat) (isDeclare : Bool) : Read Node := do
  expectWord "module"
  match ← token with
  | .string .. => outerModule g lo isDeclare
  | _ => namespaceFrom g isDeclare "namespace" lo (← bound)

/-- A declaration of a type from the word on that says of which; none if no such word stands here. -/
def typeDeclaration? (lo : Nat) (isDeclare : Bool) : Read (Option Node) := do
  if ← eatWord "abstract" then some <$> classDeclaration g lo isDeclare true
  else if ← eatWord "enum" then some <$> enumFrom g lo isDeclare false
  else if ← eatWord "interface" then some <$> interfaceFrom g lo isDeclare
  else if ← eatWord "type" then some <$> aliasFrom g lo isDeclare
  else if ← eatWord "namespace" then some <$> namespaceFrom g isDeclare "namespace" lo (← bound)
  else if (← isWord "module") && !(← newLine) then some <$> moduleFrom g lo isDeclare
  else return none

/-- The word that declares variables where the language has no other meaning for it. -/
def variableWord? : Read (Option Variable) := do
  match ← token with
  | .name w =>
    return if w = "var" then some .var_ else if w = "const" then some .const_
      else if w = "let" then some .let_ else none
  | _ => return none

/-- A declaration without what it declares; none, with nothing read, if `declare` is a name. -/
def declared? (lo : Nat) : Read (Option Node) := do
  let before ← get
  check !before.mode.ambient
  expectWord "declare"
  let d ← withMode (fun m => { m with ambient := true }) do
    if ← isWord "function" then some <$> functionDeclaration g lo true false
    else if ← isWord "class" then some <$> classDeclaration g lo true false
    else if ← startsConstEnum then some <$> constEnum g lo true
    else if ← isWord "global" then some <$> outerModule g lo true
    else
      match ← variableWord? with
      | some w => some <$> variablesFrom g lo true w
      | none => typeDeclaration? g lo true
  if d.isNone then set before
  return d

/-- Whether the current word may be followed by a name that belongs to a declaration. -/
def nextIsDeclared (sameLine : Bool) (test : Token → Bool) : Read Bool := do
  let operators := ["in", "instanceof", "as", "satisfies"]
  nextIs sameLine fun t => test t && !(operators.any fun w => t = .name w)

/-- A declaration that starts with a word that may also be a name. -/
def wordDeclaration? (lo : Nat) : Read (Option Node) := do
  match ← token with
  | .name w =>
    let m ← mode
    let isUsed : Token → Bool := fun
      | .name v => isUsable m v
      | _ => false
    let isString : Token → Bool := fun
      | .string .. => true
      | _ => false
    let starts ←
      if w = "interface" || w = "type" || w = "enum" then nextIs true isName
      else if w = "abstract" then nextIs true (· = .name "class")
      else if w = "namespace" then nextIsDeclared false isUsed
      else if w = "module" then nextIsDeclared true fun t => isUsed t || isString t
      else pure false
    if starts && w = "module" then some <$> moduleFrom g lo false
    else if starts then typeDeclaration? g lo false
    else if w = "global" && (← nextIs false (· = .sign "\x7b")) then some <$> outerModule g lo false
    else if w = "declare" && (← nextIsDeclared false isName) then declared? g lo
    else return none
  | _ => return none

/-! ## Any statement -/

/-- A statement that starts with a word which is no keyword of its own. -/
def wordStatement (lo : Nat) (inList : Bool) : Read Node := do
  if (← language).types && (← startsConstEnum) then constEnum g lo false
  else if inList && (← isWord "const") then variablesFrom g lo false .const_
  else if inList && (← letDeclares) then variablesFrom g lo false .let_
  else if inList && (← usingDeclares) then usingFrom g lo .using_
  else if ← startsAsyncFunction then asyncDeclaration g lo
  else if ← nextIs false (· = .sign ":") then labeled g
  else
    match ← if (← language).types then wordDeclaration? g lo else pure none with
    | some d => return d
    | none => expressionStatement g

def statementIn (inList : Bool) : Read Node := withMode (·.bracketed) do
  let lo ← lo
  match ← token with
  | .sign "\x7b" => block g
  | .sign ";" =>
    advance
    node .empty lo []
  | .name w =>
    if w = "if" then ifStatement g
    else if w = "for" then forStatement g
    else if w = "while" then whileStatement g
    else if w = "do" then doStatement g
    else if w = "switch" then switchStatement g
    else if w = "try" then tryStatement g
    else if w = "return" then returnStatement g
    else if w = "throw" then throwStatement g
    else if w = "break" then jump "break" .break_ (·.breakAllowed)
    else if w = "continue" then jump "continue" .continue_ (·.continueAllowed)
    else if w = "with" then withStatement g
    else if w = "debugger" then
      advance
      semicolon
      node .debugger lo []
    else if w = "var" then variablesFrom g lo false .var_
    else if w = "function" then
      check inList
      functionDeclaration g lo false false
    else if w = "class" then
      check inList
      classDeclaration g lo false false
    else if w = "import" then importStatement g lo
    else if w = "await" && (inList || (← mode).topLevel) then awaitStatement g lo
    else wordStatement g lo inList
  | _ => expressionStatement g

/-- A statement in a list of statements. -/
def statement : Read Node := statementIn g true

/-- A statement that is the body of another one. -/
def body : Read Node := statementIn g false

end ScopedStyles.Script.Read
