import ScopedStyles.Script.Reader.Statement

/-!
# Reading imports and exports

The items of a module, and of the namespaces and modules that are declared in one. Words such as
`type`, `as`, `from` and `source` are names there too, so each reader looks at what follows them.
-/

namespace ScopedStyles.Script.Read

variable (g : Grammar)

/-! ## What is imported and from where -/

/-- What is asked of an imported module. -/
def attributes? : Read Node := do
  let asks := ((← isWord "with") || (← isWord "assert")) && !(← newLine)
  if asks then
    advance
    objectLit g
  else return .absent

/-- A name in a module's interface, which may be a string. -/
def exportedName : Read Node := do
  match ← token with
  | .string (some _) _ _ => stringLit
  | _ => anyName

def hasName (w : String) (n : Node) : Bool :=
  match n.kind with
  | .ident v _ => v = w
  | _ => false

/-- One name of a list in braces: the name itself, the one that stands before `as`, whether the
word `type` marks it, and where it ends. -/
structure Listed where
  name : Node
  source : Node
  typeOnly : Bool
  hi : Nat

/-- A name of a list behind the word `type`; the word is the name if it marks none. `renamed` reads
what may stand behind `as`. -/
def listedType (typeOnly : Bool) (first : Node) (renamed : Read Node) : Read Listed := do
  let second ← anyName
  if !hasName "as" second then
    check (!typeOnly)
    if ← eatWord "as" then
      let name ← renamed
      return ⟨name, second, true, ← last⟩
    else return ⟨second, .absent, true, ← last⟩
  else if !isName (← token) then
    check (!typeOnly)
    return ⟨second, .absent, true, ← last⟩
  else
    let third ← renamed
    if hasName "as" third && isName (← token) then
      check (!typeOnly)
      let name ← renamed
      return ⟨name, second, true, first.hi⟩
    else return ⟨third, first, false, first.hi⟩

/-- A name of a list in braces. -/
def listed (typeOnly : Bool) (renamed : Read Node) : Read Listed := do
  let first ← exportedName
  if (← language).types && hasName "type" first && isName (← token) then
    listedType typeOnly first renamed
  else if ← eatWord "as" then
    let name ← renamed
    return ⟨name, first, false, ← last⟩
  else return ⟨first, .absent, false, ← last⟩

def importSpecifier (typeOnly : Bool) : Read Node := do
  let lo ← lo
  let n ← listed typeOnly bindingName
  guard (n.name.kind matches .ident ..)
  return .mk (.importNamed n.typeOnly) ⟨lo, n.hi⟩ [n.name, n.source]

/-- What follows a default import: a whole module, names in braces, or nothing. -/
def importNames (typeOnly : Bool) : Read (List Node) := do
  let lo ← lo
  if ← eat "*" then
    expectWord "as"
    let name ← bindingName
    return [← node .importNamespace lo [name]]
  else if ← eat "\x7b" then
    let ns ← commas "\x7d" (importSpecifier typeOnly)
    expect "\x7d"
    return ns
  else return []

/-- An import from behind its first name on. -/
def importFrom (lo : Nat) (typeOnly : Bool) (phase : Phase) (first : List Node) : Read Node := do
  let names ← importNames typeOnly
  expectWord "from"
  let s ← stringLit
  let attributes ← attributes? g
  semicolon
  node (.importDecl typeOnly phase) lo [.list (first ++ names), s, attributes]

/-- A name for a module or for a name within a namespace, from behind the name on. -/
def importEquals (lo : Nat) (isExport typeOnly : Bool) (name : Node) : Read Node := do
  expect "="
  let start ← Read.lo
  let isModule := (← isWord "require") && (← nextIs false (· = .sign "("))
  let ref ← if isModule then
      advance
      expect "("
      let s ← stringLit
      expect ")"
      node .externalModule start [s]
    else entityName
  semicolon
  node (.importEquals isExport typeOnly) lo [name, ref]

def startsList : Read Bool := return (← isSign "*") || (← isSign "\x7b")

def phase? (n : Node) : Option Phase :=
  if hasName "source" n then some .source else if hasName "defer" n then some .deferred else none

/-- An import from behind a first name on, which may be a word for when the module is evaluated. -/
def importNamed (lo : Nat) (typeOnly : Bool) (name : Node) : Read Node := do
  if (← language).types && (← isSign "=") then importEquals lo false typeOnly name
  else
    let finish (phase : Phase) (name : Node) : Read Node := do
      if !(← isWord "from") then expect ","
      importFrom g lo typeOnly phase [.mk .importDefault name.span [name]]
    match phase? name with
    | none => finish .evaluation name
    | some phase =>
      let isMark := (← isReference) && !(← isWord "from") || (← nextIs false (· = .name "from"))
      if ← startsList then importFrom g lo typeOnly phase []
      else if isMark then finish phase (← bindingName)
      else finish .evaluation name

def importDeclaration : Read Node := do
  let lo ← lo
  expectWord "import"
  match ← token with
  | .string .. =>
    let s ← stringLit
    let attributes ← attributes? g
    let _ ← eat ";"
    node (.importDecl false .evaluation) lo [.list [], s, attributes]
  | _ =>
    if !(← isReference) then importFrom g lo false .evaluation []
    else
      let name ← bindingName
      if !((← language).types && hasName "type" name) then importNamed g lo false name
      else
        let isFrom ← isWord "from"
        if ← startsList then importFrom g lo true .evaluation []
        else if (← isReference) && (!isFrom || (← nextIs false (· = .name "from"))) then
          importNamed g lo true (← bindingName)
        else if isFrom && (← nextIs false (· = .sign "=")) then importNamed g lo true (← anyName)
        else importNamed g lo false name

/-! ## What is exported -/

def exportSpecifier (typeOnly : Bool) : Read Node := do
  let lo ← lo
  let n ← listed typeOnly exportedName
  let kids := if n.source.isAbsent then [n.name, .absent] else [n.source, n.name]
  return .mk (.exportSpecifier n.typeOnly) ⟨lo, n.hi⟩ kids

/-- A local name that may be exported. -/
def isLocal (n : Node) : Bool :=
  match n with
  | .mk _ _ [.mk (.ident w _) _ _, _] => !Token.reservedWords.contains w
  | _ => false

/-- The module that is exported from, and the end of the statement. -/
def exportFrom (kind : Kind) (lo : Nat) (what : List Node) : Read Node := do
  expectWord "from"
  let s ← stringLit
  let attributes ← attributes? g
  semicolon
  node kind lo (what ++ [s, attributes])

def exportNames (lo : Nat) (typeOnly : Bool) : Read Node := do
  expect "\x7b"
  let ns ← commas "\x7d" (exportSpecifier typeOnly)
  expect "\x7d"
  if ← isWord "from" then exportFrom g (.exportNamed typeOnly) lo [.list ns]
  else
    check (ns.all isLocal)
    let _ ← eat ";"
    node (.exportNamed typeOnly) lo [.list ns, .absent, .absent]

/-- What is exported behind a star; the name of the whole starts at a position given. -/
def exportAll (lo start : Nat) (typeOnly : Bool) : Read Node := do
  expect "*"
  if ← eatWord "as" then
    let name ← exportedName
    let whole ← node .exportNamespace start [name]
    exportFrom g (.exportNamed typeOnly) lo [.list [whole]]
  else exportFrom g (.exportAll typeOnly) lo []

def exportDefault (lo : Nat) : Read Node := do
  let start ← Read.lo
  let types := (← language).types
  let class_ (isAbstract : Bool) : Read Node := do
    let (name, body) ← classParts g isAbstract false
    let d ← node .classExpr start [name, body]
    node .exportDefaultDecl lo [d]
  let function (isAsync : Bool) : Read Node := do
    let (name, f) ← functionParts g isAsync false false
    let d ← node .functionExpr start [name, f]
    node .exportDefaultDecl lo [d]
  let isAbstract ← if types && (← isWord "abstract") then nextIs true (· = .name "class")
    else pure false
  if isAbstract then
    advance
    class_ true
  else if types && (← isWord "interface") then
    advance
    let d ← interfaceFrom g start false
    node .exportDefaultDecl lo [d]
  else if ← isWord "class" then class_ false
  else if ← startsAsyncFunction then
    advance
    function true
  else if ← isWord "function" then function false
  else
    let e ← inside g.assignment
    semicolon
    node .exportDefaultExpr lo [e]

/-- A declaration that is exported. -/
def exported? : Read (Option Node) := do
  let lo ← lo
  if ← isWord "class" then some <$> classDeclaration g lo false false
  else if ← startsAsyncFunction then some <$> asyncDeclaration g lo
  else if ← isWord "function" then some <$> functionDeclaration g lo false false
  else if (← language).types && (← startsConstEnum) then some <$> constEnum g lo false
  else if ← isWord "var" then some <$> variablesFrom g lo false .var_
  else if ← isWord "const" then some <$> variablesFrom g lo false .const_
  else if ← letDeclares then some <$> variablesFrom g lo false .let_
  else return none

/-- A declaration that only a language with types has. -/
def exportedType? : Read (Option Node) := do
  let lo ← lo
  let declared ← if ← isWord "declare" then declared? g lo else pure none
  match declared with
  | some d => return some d
  | none =>
    let d ← tried do
      match ← typeDeclaration? g lo false with
      | some d => return d
      | none => fail
    return d

/-- Exports that only a language with types has. -/
def exportTyped? (lo : Nat) : Read (Option Node) := do
  if ← eatWord "import" then
    let typeOnly := (← isWord "type") && (← nextIs false isName)
    if typeOnly then advance
    let name ← anyName
    some <$> importEquals lo true typeOnly name
  else if ← eat "=" then
    let e ← inside (expression g)
    semicolon
    some <$> node .exportAssignment lo [e]
  else if ← eatWord "as" then
    expectWord "namespace"
    let name ← reference
    semicolon
    some <$> node .namespaceExport lo [name]
  else return none

def exportDeclaration : Read Node := do
  let lo ← lo
  expectWord "export"
  let types := (← language).types
  match ← if types then exportedType? g else pure none with
  | some d => node .exportDecl lo [d]
  | none =>
    match ← if types then exportTyped? g lo else pure none with
    | some n => return n
    | none =>
      let start ← Read.lo
      let typeOnly ← if types then eatWord "type" else pure false
      if !typeOnly && (← eatWord "default") then exportDefault g lo
      else
        match ← if typeOnly then pure none else exported? g with
        | some d => node .exportDecl lo [d]
        | none => if ← isSign "*" then exportAll g lo start typeOnly else exportNames g lo typeOnly

def item : Read Node := do
  let isCall ← nextIs false fun t => t = .sign "(" || t = .sign "."
  if (← isWord "import") && !isCall then importDeclaration g
  else if ← isWord "export" then exportDeclaration g
  else g.statement

end ScopedStyles.Script.Read
