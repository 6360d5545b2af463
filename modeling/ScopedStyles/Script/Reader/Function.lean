import ScopedStyles.Script.Reader.Pattern

/-!
# Reading functions and classes

Functions, arrows and methods share their parameters and bodies. A body whose first token is the
text `use strict` is strict from there to its end.
-/

namespace ScopedStyles.Script

namespace Mode

/-- The mode of the parameters of a function. -/
def parameters (marks : FunctionMarks) (m : Mode) : Mode :=
  { m with
    inParameters := true, inFunction := false, allowIn := true
    isAsync := marks.isAsync, isGenerator := marks.isGenerator }

/-- The mode of the body of a function; an arrow function stands for what is around it. -/
def body (marks : FunctionMarks) (isArrow : Bool) (m : Mode) : Mode :=
  { m with
    inFunction := true, ownFunction := m.ownFunction || !isArrow, topLevel := false
    isAsync := marks.isAsync, isGenerator := marks.isGenerator, inStaticBlock := false
    breakAllowed := false, continueAllowed := false, labels := [], loopHead := none }

/-- The mode inside brackets. -/
def bracketed (m : Mode) : Mode := { m with allowIn := true, colonFollows := false }

end Mode

namespace Node

def isArrow (n : Node) : Bool := n.kind matches .arrow _

def isStrictDirective : Node → Bool
  | mk .exprStmt _ [mk (.string _ (some w)) _ _] => w = "'use strict'" || w = "\"use strict\""
  | _ => false

/-- The pattern of a parameter. -/
def parameterPattern : Node → Node
  | mk .parameter _ [p] => p.parameterPattern
  | mk (.parameterProperty _) _ [p] => p
  | p => p

def isPlainParameter (n : Node) : Bool := n.parameterPattern.kind matches .binding

def hasDefault (n : Node) : Bool := n.parameterPattern.kind matches .assignPattern

def isThisParameter (n : Node) : Bool :=
  match n.parameterPattern with
  | mk .binding _ (mk (.ident "this" _) _ _ :: _) => true
  | _ => false

def isConstructorName : Node → Bool
  | mk (.ident w _) _ _ => w = "constructor"
  | mk (.string (some w) _) _ _ => w = "constructor"
  | _ => false

def isPrivateName (n : Node) : Bool := n.kind matches .privateName _

def isAbstractMember (n : Node) : Bool :=
  match n.kind with
  | .method m _ | .property m => m.isAbstract && !(n.kids.head?.any isPrivateName)
  | _ => false

def hasConstructorBody : Node → Bool
  | mk (.constructor_ _) _ [_, _, body] => !body.isAbsent
  | _ => false

end Node

namespace Read

variable (g : Grammar)

/-! ## Bodies -/

def startsStrict : Read Bool := do
  match ← token with
  | .string _ w _ => return w = "'use strict'" || w = "\"use strict\""
  | _ => return false

/-- The items of a body up to a stop. -/
def bodyItems (stop : Read Bool) (item : Read Node) : Read (List Node) := do
  let strict ← startsStrict
  withMode (fun m => { m with strict := m.strict || strict }) (many stop item)

/-- The body of a function. One that says it is strict goes with plain parameters only. -/
def functionBody (directives : Bool) (params : List Node) : Read Node := do
  let lo ← lo
  check !((← mode).ambient && (← language).types)
  expect "\x7b"
  let ss ← if directives then bodyItems (isSign "\x7d") g.statement
    else many (isSign "\x7d") g.statement
  expect "\x7d"
  check (params.all Node.isPlainParameter ||
    !(ss.takeWhile Node.isDirective).any Node.isStrictDirective)
  node .block lo ss

/-- A body; where types may be written, a semicolon may stand instead. -/
def body? (params : List Node) : Read Node := do
  if (← language).types && !(← isSign "\x7b") then
    semicolon
    check !(params.any Node.hasDefault)
    return .absent
  else functionBody g true params

/-- A function from its type parameters or parameters on. -/
def functionFrom (marks : FunctionMarks) (params : Read (List Node)) : Read Node := do
  let lo ← lo
  let types := (← language).types
  let tps ← optional types (typeParameters? g false true)
  let ps ← withMode (Mode.parameters marks) params
  let r ← optional types (returnAnnotation? g)
  let body ← withMode (Mode.body marks false) (body? g ps)
  node (.function marks) lo [.list ps, body, tps, r]

/-- An arrow function from its arrow on. -/
def arrowFrom (lo : Nat) (marks : FunctionMarks) (params : List Node) (returns : Node) :
    Read Node := do
  expect "=>"
  let body ← withMode (Mode.body marks true) do
    if ← isSign "\x7b" then functionBody g false params else g.assignment
  node (.arrow marks) lo [.list params, body, .absent, returns]

/-- Whether the name of a function or class stands here. -/
def isNamed : Read Bool := do
  return (← isReference) || ((← language).types && (← isWord "this"))

/-- A function from its word on: its name and the rest. The name of an expression is read as what
the function itself is. -/
def functionParts (isAsync isExpr needsName : Bool) : Read (Node × Node) := do
  expectWord "function"
  let marks : FunctionMarks := ⟨isAsync, ← eat "*"⟩
  let ofFunction (m : Mode) : Mode :=
    if isExpr then { m with isAsync := marks.isAsync, isGenerator := marks.isGenerator } else m
  let name ← withMode ofFunction do optional (needsName || (← isNamed)) bindingName
  let f ← withMode (fun m => { m with hasSuper := false, inField := false, colonFollows := false })
    (functionFrom g marks (parameters g))
  return (name, f)

def functionExpr (lo : Nat) (isAsync : Bool) : Read Node := do
  let (name, f) ← functionParts g isAsync true false
  match f.kids[1]? with
  | some body =>
    guard !body.isAbsent
    node .functionExpr lo [name, f]
  | none => fail

/-! ## Methods of objects and classes -/

/-- A function that reads a member has no parameter but `this`. -/
def getterParameters : Read (List Node) := do
  let ps ← parameters g
  check (ps.all Node.isThisParameter)
  return ps

/-- A function that sets a member has one parameter besides `this`. -/
def setterParameters : Read (List Node) := do
  let ps ← parameters g
  check ((ps.filter (!Node.isThisParameter ·)).length = 1 &&
    !(ps.head?.any fun p => isRest p.parameterPattern))
  return ps

def accessWords : List String := ["public", "protected", "private"]

/-- A word before a parameter or a member, if it is one of those given and marks what follows. -/
def mark? (words : List String) : Read (Option String) := do
  match ← token with
  | .name w =>
    if (← language).types && words.contains w && (← marksNext) then
      advance
      return some w
    else return none
  | _ => return none

/-- A parameter of a constructor; words before it make it a property. -/
def constructorParameter : Read Node := do
  let lo ← lo
  let access ← mark? accessWords
  let isOverride := (← mark? ["override"]).isSome
  let isReadonly := (← mark? ["readonly"]).isSome
  if access.isSome || isOverride || isReadonly then
    let p ← parameterPattern g
    guard (p.kind matches .binding | .assignPattern)
    let marks := { MemberMarks.plain with
      access := access, isOverride := isOverride, isReadonly := isReadonly }
    node (.parameterProperty marks) lo [p]
  else parameter g

def constructorParameters : Read (List Node) := do
  expect "("
  let ps ← commas ")" (constructorParameter g)
  expect ")"
  return ps

def memberKey : Read Node := do
  match ← token with
  | .privateName w =>
    guard (w ≠ "constructor")
    privateName
  | _ => propertyName g

/-- Whether the parameters of a method start here. -/
def startsMethod : Read Bool := do
  return (← isSign "(") || ((← language).types && (← isSign "<"))

/-- Whether a member that is no method goes on or ends behind its name. -/
def endsName (atLineEnd : Bool) : Read Bool := do
  let typed := (← language).types && ((← isSign "!") || (← isSign ":"))
  let signed := (← isSign "=") || (← isSign "\x7d") || (← isSign ";")
  return typed || signed || atLineEnd && ((← newLine) || (← isEof))

/-- A member that is no method, from behind its name on. -/
def fieldFrom (lo : Nat) (marks : MemberMarks) (key : Node) : Read Node := do
  guard (!key.isConstructorName)
  let types := (← language).types
  let isDefinite ← if types && !marks.isOptional then eat "!" else pure false
  let ann ← optional types (annotation? g)
  let value ← optional (← eat "=")
    (withMode (fun m => { m.bracketed with inField := true }) g.assignment)
  semicolon
  check !(key.isPrivateName && (marks.access.isSome || marks.isDeclare || marks.isAbstract))
  check !(!value.isAbsent && (marks.isAbstract || (← mode).ambient))
  node (.property { marks with isDefinite := isDefinite }) lo [key, value, ann]

def methodFrom (lo : Nat) (marks : MemberMarks) (kind : MethodKind) (f : FunctionMarks)
    (key : Node) (params : Read (List Node)) : Read Node := do
  let f ← withMode (fun m => { m with inField := false, colonFollows := false })
    (functionFrom g f params)
  let hasBody := !((f.kids.getD 1 .absent).isAbsent)
  check !(if key.isPrivateName then marks.access.isSome else marks.isAbstract && hasBody)
  node (.method marks kind) lo [key, f]

def constructorFrom (lo : Nat) (marks : MemberMarks) (key : Node) : Read Node := do
  check !(marks.isOverride || marks.isStatic || marks.isAbstract)
  let ps ← constructorParameters g
  check !((← language).types && (← isSign ":"))
  let body ← withMode (fun m => { Mode.body .plain false m with colonFollows := false }) (body? g ps)
  check (!body.isAbsent || ps.all fun p => !(p.kind matches .parameterProperty _))
  node (.constructor_ marks) lo [key, .list ps, body]

def staticBlock (lo : Nat) : Read Node := do
  let start ← Read.lo
  expect "\x7b"
  let ss ← withMode
    (fun m => { m.bracketed with inStaticBlock := true, inField := true, topLevel := false })
    (many (isSign "\x7d") g.statement)
  expect "\x7d"
  let b ← node .block start ss
  node .staticBlock lo [b]

/-- The words that may stand in any order before a member. -/
def freeMarks : Nat → MemberMarks → Read MemberMarks
  | 0, _ => fail
  | fuel + 1, m => do
    if (← isWord "static") && (← nextIs false (· = .sign "\x7b")) then return m
    else
      match ← mark? ["abstract", "readonly", "override", "static"] with
      | none => return m
      | some w =>
        let hasParent := (← mode).hasParent
        check (
          if w = "abstract" then !m.isAbstract && !m.isOverride
          else if w = "override" then !m.isOverride && !m.isReadonly && !m.isDeclare && hasParent
          else if w = "readonly" then !m.isReadonly
          else !m.isOverride)
        freeMarks fuel (m.mark w)

/-- A method that is not told by its name alone: what it makes is gathered over time, or it comes at
once. -/
def namedMethod (lo : Nat) (marks : MemberMarks) (isAsync : Bool) : Read Node := do
  let isGenerator ← eat "*"
  let key ← memberKey g
  check !(marks.isReadonly || key.isConstructorName)
  let isOptional ← if (← language).types then eat "?" else pure false
  methodFrom g lo { marks with isOptional := marks.isOptional || isOptional } .method
    ⟨isAsync, isGenerator⟩ key (parameters g)

/-- A function in place of a member, from behind the word `get` or `set` on. -/
def accessor (lo : Nat) (marks : MemberMarks) (kind : MethodKind) : Read Node := do
  let key ← memberKey g
  check !(marks.isReadonly || key.isConstructorName)
  methodFrom g lo marks kind .plain key
    (if kind = .getter then getterParameters g else setterParameters g)

/-- A member from its name on. -/
def memberFrom (lo : Nat) (marks : MemberMarks) : Read Node := do
  if ← isSign "*" then namedMethod g lo marks false
  else
    let key ← memberKey g
    let isOptional ← if (← language).types then eat "?" else pure false
    let marks := { marks with isOptional := isOptional }
    if ← startsMethod then
      check !marks.isDeclare
      guard !marks.isReadonly
      if key.isConstructorName then constructorFrom g lo marks key
      else methodFrom g lo marks .method .plain key (parameters g)
    else
      let named (w : String) : Bool := match key.kind with
        | .ident v _ => v = w
        | _ => false
      let startsAnew := (← newLine) && (← isSign "*")
      let mayBeAccessor := !(← endsName false) && !startsAnew
      if named "get" && mayBeAccessor then accessor g lo marks .getter
      else if named "set" && mayBeAccessor then accessor g lo marks .setter
      else if ← endsName true then fieldFrom g lo marks key
      else
        guard (named "async" && !(← newLine))
        namedMethod g lo marks true

/-- The member whose name is a word that could mark another one; none if the word does so. -/
def namedBy (lo keyLo : Nat) (w : String) (atLineEnd : Bool) (marks : MemberMarks) :
    Read (Option Node) := do
  let key ← node (.ident w false) keyLo []
  if ← startsMethod then
    return some (← methodFrom g lo marks .method .plain key (parameters g))
  else
    let types := (← language).types
    if (← endsName atLineEnd) || (types && (← isSign "?")) then
      let isOptional ← if types then eat "?" else pure false
      return some (← fieldFrom g lo { marks with isOptional := isOptional } key)
    else return none

/-- A member from behind the words whose order is fixed. -/
def markedMember (lo : Nat) (marks : MemberMarks) : Read Node := do
  let marks ← freeMarks (← bound) marks
  let types := (← language).types
  let mayBeAccessor := types && !marks.isAccessor && !marks.isReadonly
  let isAccessor ← if mayBeAccessor && !(← nextIs false (· = .sign "(")) then eatWord "accessor"
    else pure false
  let marks := { marks with isAccessor := marks.isAccessor || isAccessor }
  if marks.isStatic && (← isSign "\x7b") then
    check !(marks.isDeclare || marks.access.isSome)
    staticBlock g lo
  else if types && !marks.isAbstract && !marks.isOverride && marks.access.isNone &&
      (← startsIndex) then
    indexSignature g marks.isReadonly marks.isStatic lo
  else memberFrom g lo marks

def member : Read Node := do
  let lo ← lo
  if ← eat ";" then node .semicolonMember lo []
  else
    let types := (← language).types
    let declares ← if types then eatWord "declare" else pure false
    let access ← mark? accessWords
    let declares ← if types && !declares then eatWord "declare" else pure declares
    let marks := { MemberMarks.plain with access := access }
    match ← if declares then namedBy g lo lo "declare" true marks else pure none with
    | some m => return m
    | none =>
      let marks := { marks with isDeclare := declares }
      let start ← Read.lo
      let isStatic ← eatWord "static"
      let second ← Read.lo
      let isAccessor ← if types then eatWord "accessor" else pure false
      let named ←
        if isAccessor then
          namedBy g lo second "accessor" (!isStatic) { marks with isStatic := isStatic }
        else if isStatic then namedBy g lo start "static" false marks
        else pure none
      match named with
      | some m => return m
      | none => markedMember g lo { marks with isStatic := isStatic, isAccessor := isAccessor }

/-! ## Classes -/

/-- A name with further names behind points, as an expression, and its type arguments. -/
def heritage : Read Node := do
  let first ← anyName
  let names ← many (return !(← isSign ".")) do
    advance
    anyName
  let e := names.foldl (fun e n => Node.mk .member ⟨e.lo, n.hi⟩ [e, n]) first
  let args ← optional (← startsAngle) (typeArguments g)
  node .heritage first.lo [e, args]

/-- What a class or an interface builds on; a comma may follow the last name. -/
def heritages : Read (List Node) := do
  let stop : Read Bool := do
    return (← isSign "\x7b") || (← isWord "implements") || (← isWord "extends")
  many stop do
    let h ← heritage g
    if !(← eat ",") then guard (← stop)
    return h

/-- The class behind `extends`, and its type arguments. -/
def superClass : Read (Node × Node) := do
  if ← eatWord "extends" then
    match ← g.leftHandSide with
    | .mk .instantiation _ [e, args] => return (e, args)
    | e => return (e, ← optional ((← language).types && (← startsAngle)) (typeArguments g))
  else return (.absent, .absent)

/-- A class from behind its name on. -/
def classBody (isAbstract : Bool) : Read Node := do
  let lo ← lo
  let types := (← language).types
  let tps ← optional types (typeParameters? g true true)
  let (base, args) ← superClass g
  let implemented ←
    if types && (← eatWord "implements") then heritages g else pure []
  expect "\x7b"
  let inside (m : Mode) : Mode := { m.bracketed with hasSuper := true, hasParent := !base.isAbsent }
  let ms ← withMode inside (many (isSign "\x7d") (member g))
  expect "\x7d"
  check ((← mode).ambient || (ms.filter Node.hasConstructorBody).length ≤ 1)
  check (isAbstract || !ms.any Node.isAbstractMember)
  node .classBody lo [.list ms, base, tps, args, .list implemented]

/-- Words that no class or interface may be named by. -/
def typeWords : List String :=
  ["string", "null", "number", "object", "any", "unknown", "boolean", "bigint", "symbol", "void",
    "never", "intrinsic"]

def namesType (n : Node) : Bool :=
  match n.kind with
  | .ident w _ => typeWords.contains w
  | _ => false

/-- A class from its word on: its name and the rest. -/
def classParts (isAbstract needsName : Bool) : Read (Node × Node) := do
  expectWord "class"
  withMode (fun m => { m with strict := true, inClass := true }) do
    let name ← optional (needsName || (← isNamed)) bindingName
    check !((← language).types && namesType name)
    let body ← classBody g isAbstract
    return (name, body)

end Read

end ScopedStyles.Script
