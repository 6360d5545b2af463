import ScopedStyles.Script.Reader.Basic

/-!
# Reading types

Types stand behind colons, between angles and in declarations of their own. A conditional type may
not stand bare behind the `extends` of another one.
-/

namespace ScopedStyles.Script.Read

variable (g : Grammar)

/-- The first character as a sign of its own. -/
def firstSign (c : Cursor) : Option (Token × Cursor) :=
  match c.rest with
  | ch :: rest => some (.sign ch.toString, c.next ch rest)
  | [] => none

def startsAngle : Read Bool := return (← isSign "<") || (← isSign "<<")

def typeArguments : Read Node := do
  let lo ← lo
  if ← isSign "<<" then rescan firstSign
  expect "<"
  let ts ← commas ">" g.type
  check (!ts.isEmpty)
  expect ">"
  node .typeArgs lo ts

/-- Whether the token behind the current word lets the word be a mark of what follows. -/
def marksNext : Read Bool := ahead do
  advance
  let sameLine := !(← newLine)
  match ← token with
  | .name _ | .string .. | .number .. | .bigint _ => return true
  | .privateName _ => return sameLine
  | .sign s => return sameLine && ["[", "\x7b", "*", "..."].contains s
  | _ => return false

def parameterMarks : List String :=
  ["public", "private", "protected", "readonly", "abstract", "const", "override", "in", "out"]

/-- The words before a parameter of a type: of its variance if `hasVariance`, and `const` if
`mayBeConst`. -/
def typeMarks (hasVariance mayBeConst : Bool) : Nat → List String → Read (List String)
  | 0, _ => fail
  | fuel + 1, ms => do
    match ← token with
    | .name w =>
      if parameterMarks.contains w && (← marksNext) then
        let isNew := w = "in" && !ms.contains "in" && !ms.contains "out" ||
          w = "out" && !ms.contains "out"
        check (if w = "const" then mayBeConst else hasVariance && isNew)
        advance
        typeMarks hasVariance mayBeConst fuel (ms ++ [w])
      else return ms
    | _ => return ms

def typeParameter (hasVariance mayBeConst : Bool) : Read Node := do
  let lo ← lo
  let marks ← typeMarks hasVariance mayBeConst (← bound) []
  let name ← anyName
  let constraint ← optional (← eatWord "extends") g.type
  let default_ ← optional (← eat "=") g.type
  node (.typeParam (["const", "in", "out"].filter (marks.contains ·))) lo
    [name, constraint, default_]

def typeParameters (hasVariance mayBeConst : Bool) : Read Node := do
  let lo ← lo
  expect "<"
  let ps ← commas ">" (typeParameter g hasVariance mayBeConst)
  expect ">"
  node .typeParams lo ps

def typeParameters? (hasVariance mayBeConst : Bool) : Read Node := do
  optional (← isSign "<") (typeParameters g hasVariance mayBeConst)

/-- A type behind a colon, if one follows. -/
def annotation? : Read Node := do
  let lo ← lo
  if ← eat ":" then node .typeAnn lo [← g.type] else return .absent

/-- What a type says of its subject, from behind the subject on. -/
def predicateFrom (lo : Nat) (asserts : Bool) (subject : Node) : Read Node := do
  let about ← if ← eatWord "is" then
      let start ← Read.lo
      node .typeAnn start [← g.type]
    else pure .absent
  node (.typePredicate asserts) lo [subject, about]

/-- What a function returns: a type, or what it says of a parameter. -/
def returned : Read Node := do
  let lo ← lo
  let asserts ← if ← isWord "asserts" then nextIsReference false else pure false
  if asserts then advance
  let isAbout ← if ← isReference then nextIs true (· = .name "is") else pure false
  if isAbout then predicateFrom g lo asserts (← anyName)
  else if asserts then node (.typePredicate true) lo [← anyName, .absent]
  else g.type

def returnAnnotation? : Read Node := do
  let lo ← lo
  if ← eat ":" then node .typeAnn lo [← returned g] else return .absent

/-! ## Parameters -/

/-- Gives a pattern its question mark and its type, which count as part of a name or of a list where
`names` or `lists` says so. -/
def annotated (names lists optional : Bool) (ann : Node) (hi : Nat) : Node → Option Node
  | .mk .binding s [.mk (.ident w _) _ _, _] =>
    let s := span names s
    some (.mk .binding s [.mk (.ident w optional) s [], ann])
  | .mk (.arrayPattern _) s [items, _] =>
    some (.mk (.arrayPattern optional) (span lists s) [items, ann])
  | .mk (.objectPattern _) s [props, _] =>
    some (.mk (.objectPattern optional) (span lists s) [props, ann])
  | .mk (.rest dots) s [p, _] =>
    if optional then none else some (.mk (.rest dots) (span lists s) [p, ann])
  | _ => none
where
  span (reaches : Bool) (s : Span) : Span :=
    if reaches && !ann.isAbsent then ⟨s.lo, hi⟩ else s

/-- A pattern with its type, where types may be written. -/
def annotatedPattern (pattern : Read Node) : Read Node := do
  let p ← pattern
  if (← language).types then
    let ann ← annotation? g
    match annotated false false false ann (← last) p with
    | some p => return p
    | none => fail
  else return p

def defaultValue : Read Node := withMode (fun m => { m with allowIn := true }) g.assignment

/-- The pattern of a parameter with its question mark, its type and its default. -/
def parameterPattern : Read Node := do
  let lo ← lo
  let p ← g.pattern
  let types := (← language).types
  let isOptional ← if types then eat "?" else pure false
  let ann ← if types then annotation? g else pure .absent
  let hi ← last
  match if types then annotated false true isOptional ann hi p else some p with
  | none => fail
  | some p =>
    if ← eat "=" then
      check !(isOptional || (← mode).ambient)
      let value ← defaultValue g
      node .assignPattern lo [p, value]
    else return p

/-- What takes all values that are left; nothing follows it. -/
def restParameter : Read Node := do
  let lo ← lo
  expect "..."
  let p ← g.pattern
  let ann ← optional (← language).types (annotation? g)
  guard (← isSign ")")
  node (.rest lo) lo [p, ann]

/-- A parameter without the words that make it a property. -/
def parameter : Read Node := do
  let lo ← lo
  let p ← if ← isSign "..." then restParameter g else parameterPattern g
  node .parameter lo [p]

def parameters : Read (List Node) := do
  expect "("
  let ps ← commas ")" (parameter g)
  expect ")"
  return ps

/-- The parameters of a signature, which have no defaults. -/
def signatureParameters : Read (List Node) := do
  let ps := (← parameters g).flatMap Node.kids
  guard (ps.all fun p => !(p.kind matches .assignPattern))
  return ps

/-- A signature from its type parameters on, with what it returns behind a sign. -/
def signatureFrom (kind : Kind) (lo : Nat) (arrow : Bool) : Read Node := do
  let tps ← typeParameters? g false true
  let ps ← signatureParameters g
  let start ← Read.lo
  let r ← if arrow then
      expect "=>"
      node .typeAnn start [← returned g]
    else returnAnnotation? g
  node kind lo [.list ps, tps, r]

def functionType : Read Node := do signatureFrom g .functionType (← lo) true

def constructorType : Read Node := do
  let lo ← lo
  let isAbstract ← eatWord "abstract"
  expectWord "new"
  signatureFrom g (.constructorType isAbstract) lo true

/-! ## Names in types -/

def qualified : Nat → Node → Read Node
  | 0, _ => fail
  | fuel + 1, left => do
    if ← eat "." then
      let right ← anyName
      let n ← node .qualifiedName left.lo [left, right]
      qualified fuel n
    else return left

/-- A word with further words behind points; nothing is a part of `void`. -/
def entityName : Read Node := do
  let isVoid ← isWord "void"
  let first ← anyName
  check (!isVoid)
  qualified (← bound) first

def typeArguments? : Read Node := do
  optional ((← startsAngle) && !(← newLine)) (typeArguments g)

def typeReference : Read Node := do
  let lo ← lo
  let name ← entityName
  let args ← typeArguments? g
  node .typeRef lo [name, args]

/-- The name of a property. -/
def computedName : Read Node := do
  let lo ← lo
  expect "["
  let e ← withMode (fun m => { m with allowIn := true }) g.assignment
  expect "]"
  node .computed lo [e]

def propertyName : Read Node := do
  match ← token with
  | .name .. => anyName
  | .string .. => stringLit
  | .number .. | .bigint _ => numberLit
  | .sign "[" => computedName g
  | _ => fail

/-- How a module is to be loaded: an object under the name `with`. -/
def importOptions : Read Node := do
  expect "\x7b"
  expectWord "with"
  expect ":"
  guard (← isSign "\x7b")
  let o ← g.assignment
  guard (o.kind matches .object _)
  let _ ← eat ","
  expect "\x7d"
  return o

def importType : Read Node := do
  let lo ← lo
  expectWord "import"
  expect "("
  let source ← stringLit
  let options ← if ← eat "," then optional (← isSign "\x7b") (importOptions g) else pure .absent
  expect ")"
  let qualifier ← optional (← eat ".") entityName
  let args ← optional (← isSign "<") (typeArguments g)
  node .importType lo [source, options, qualifier, args]

def typeQuery : Read Node := do
  let lo ← lo
  expectWord "typeof"
  let name ← if ← isWord "import" then importType g else entityName
  let args ← optional ((← isSign "<") && !(← newLine)) (typeArguments g)
  node .typeQuery lo [name, args]

/-! ## Members of types -/

/-- A comma, a semicolon or a line end after a member. -/
def memberEnd : Read Unit := do
  if ← eat "," then return () else semicolon

/-- Whether a bracket starts the name of an index and not a computed name. -/
def startsIndex : Read Bool := ahead do
  expect "["
  guard (← isReference)
  advance
  isSign ":"

def indexSignature (isReadonly isStatic : Bool) (lo : Nat) : Read Node := do
  expect "["
  let name ← anyName
  let ann ← annotation? g
  let span : Span := ⟨name.lo, ← last⟩
  expect "]"
  let param := Node.mk .binding span [.mk name.kind span [], ann]
  let value ← annotation? g
  memberEnd
  node (.indexSignature isReadonly isStatic) lo [param, value]

/-- A member that is read or set through a function. -/
def accessorSignature (lo : Nat) : Read Node := do
  if ← eatWord "get" then
    let key ← propertyName g
    expect "("
    expect ")"
    let r ← annotation? g
    memberEnd
    node .getterSignature lo [key, r]
  else
    expectWord "set"
    let key ← propertyName g
    let ps ← signatureParameters g
    guard (!ps.isEmpty)
    memberEnd
    node .setterSignature lo [key, .list (ps.take 1)]

def signatureMember (kind : Kind) (lo : Nat) : Read Node := do
  let n ← signatureFrom g kind lo false
  memberEnd
  node kind lo n.kids

def typeMember : Read Node := do
  let lo ← lo
  if (← isSign "(") || (← isSign "<") then signatureMember g .callSignature lo
  else if (← isWord "new") && (← nextIs false fun t => t = .sign "(" || t = .sign "<") then
    advance
    signatureMember g .constructSignature lo
  else
    let isReadonly := (← isWord "readonly") && (← marksNext)
    if isReadonly then advance
    if ← startsIndex then indexSignature g isReadonly false lo
    else
      let accessor ← if isReadonly then pure none else do
        let start ← Read.lo
        tried (accessorSignature g start)
      match accessor with
      | some m => return m
      | none =>
        let key ← propertyName g
        let isOptional ← eat "?"
        if (← isSign "(") || (← isSign "<") then
          guard (!isReadonly)
          let f ← signatureFrom g (.methodSignature isOptional) lo false
          memberEnd
          node (.methodSignature isOptional) lo (key :: f.kids)
        else
          let ann ← annotation? g
          memberEnd
          node (.propertySignature isReadonly isOptional) lo [key, ann]

def typeMembers : Read (List Node) := do
  expect "\x7b"
  let ms ← many (isSign "\x7d") (typeMember g)
  expect "\x7d"
  return ms

def typeLiteral : Read Node := do
  let lo ← lo
  let ms ← typeMembers g
  node .typeLiteral lo ms

/-- Whether a brace starts a type that maps keys. -/
def startsMapping : Read Bool := ahead do
  expect "\x7b"
  if (← eat "+") || (← eat "-") then isWord "readonly"
  else
    let _ ← eatWord "readonly"
    expect "["
    guard (← isReference)
    advance
    isWord "in"

/-- A mark that may have a sign of its own, such as `-readonly` and `+?`. -/
def signedMark (isMark : Read Bool) : Read (Option String) := do
  let sign ← if ← eat "+" then pure "+" else if ← eat "-" then pure "-" else pure ""
  if ← isMark then
    advance
    return some sign
  else
    guard (sign = "")
    return none

def mappedType : Read Node := do
  let lo ← lo
  expect "\x7b"
  let isReadonly ← signedMark (isWord "readonly")
  expect "["
  let start ← Read.lo
  let name ← anyName
  expectWord "in"
  let constraint ← g.type
  let param ← node (.typeParam []) start [name, constraint, .absent]
  let renamed ← optional (← eatWord "as") g.type
  expect "]"
  let isOptional ← signedMark (isSign "?")
  let ann ← annotation? g
  semicolon
  expect "\x7d"
  node (.mappedType isReadonly isOptional) lo [param, renamed, ann]

/-- The label of an element of a tuple, with its points or question mark. -/
def tupleLabel : Read Node := do
  let lo ← lo
  let isRest ← eat "..."
  let name ← anyName
  let isOptional ← eat "?"
  let span : Span := ⟨name.lo, ← last⟩
  expect ":"
  let name := match name with
    | .mk (.ident w _) _ _ => Node.mk .binding span [.mk (.ident w isOptional) span [], .absent]
    | n => n
  return if isRest then .mk (.rest lo) ⟨lo, span.hi⟩ [name, .absent] else name

def tupleElement : Read Node := do
  let lo ← lo
  let label := (← tried tupleLabel).getD .absent
  if ← eat "..." then
    let t ← g.type
    node .tupleElement lo [label, ← node .restType lo [t]]
  else
    let start ← Read.lo
    let t ← g.type
    let t ← if ← eat "?" then node .optionalType start [t] else pure t
    node .tupleElement lo [label, t]

/-- Whether no element that must be there follows one that may be missing. -/
def optionalLast (seen : Bool) : List Node → Bool
  | [] => true
  | e :: es =>
    match e.kids.map Node.kind with
    | [_, .restType] => optionalLast seen es
    | [_, .optionalType] => optionalLast true es
    | _ => !seen && optionalLast seen es

def tupleType : Read Node := do
  let lo ← lo
  expect "["
  let es ← commas "]" (tupleElement g)
  expect "]"
  guard (optionalLast false es)
  node .tupleType lo es

/-! ## Templates -/

/-- A chunk of a template at the cursor; whether the template ends behind it. -/
def quasi (mayBeMalformed : Bool) : Read (Node × Bool) := do
  let r ← get
  match Token.templateChars (r.cursor.rest.length + 1) r.cursor.rest with
  | none => fail
  | some (written, ok, ends, rest) =>
    guard (ok || mayBeMalformed)
    let stop := r.cursor.skip written rest
    let cursor := stop.skip (if ends then ['`'] else ['$', '\x7b']) rest
    set { r with
      cursor := cursor
      token := .sign (if ends then "`" else "$\x7b")
      span := ⟨stop.pos, cursor.pos⟩ }
    return (.mk (.quasi (String.ofList written)) ⟨r.cursor.pos, stop.pos⟩ [], ends)

/-- The chunks of a template and what stands between them, from its backtick on. -/
def templateParts (mayBeMalformed : Bool) (inner : Read Node) :
    Nat → Read (List Node × List Node)
  | 0 => fail
  | fuel + 1 => do
    let (chunk, ends) ← quasi mayBeMalformed
    if ends then
      advance
      return ([], [chunk])
    else
      advance
      let e ← inner
      guard (← isSign "\x7d")
      let (es, chunks) ← templateParts mayBeMalformed inner fuel
      return (e :: es, chunk :: chunks)

def templateType : Read Node := do
  let lo ← lo
  guard (← isSign "`")
  let (ts, chunks) ← templateParts false g.type (← bound)
  node .templateType lo [.list ts, .list chunks]

/-! ## Types by strength -/

def typeKeywords : List String :=
  ["any", "unknown", "number", "object", "boolean", "bigint", "string", "symbol", "void",
    "undefined", "null", "never", "intrinsic"]

/-- Words of the language that may still name a type. -/
def typeNames : List String := ["void", "null", "yield", "await", "break"]

def literalType : Read Node := do
  let lo ← lo
  match ← token with
  | .string .. =>
    let s ← stringLit
    node .literalType lo [s]
  | .number .. | .bigint _ =>
    let n ← numberLit
    node .literalType lo [n]
  | .sign "-" =>
    advance
    let n ← numberLit
    let kind := match n.kind with
      | .number w => .number ("-" ++ w)
      | .bigint w => .bigint ("-" ++ w)
      | k => k
    node .literalType lo [.mk kind n.span []]
  | .name w =>
    guard (w = "true" || w = "false")
    advance
    let b ← node (.boolean (w = "true")) lo []
    node .literalType lo [b]
  | _ => fail

def thisType : Read Node := do
  let lo ← lo
  expectWord "this"
  node .thisType lo []

def primaryType : Read Node := do
  let lo ← lo
  match ← token with
  | .sign "(" =>
    advance
    let t ← g.type
    expect ")"
    node .parenType lo [t]
  | .sign "[" => tupleType g
  | .sign "\x7b" => if ← startsMapping then mappedType g else typeLiteral g
  | .sign "`" => templateType g
  | .name w =>
    if w = "asserts" && (← nextIs false (· = .name "this")) then
      advance
      predicateFrom g lo true (← thisType)
    else if w = "this" then
      let t ← thisType
      if (← isWord "is") && !(← newLine) then predicateFrom g lo false t else return t
    else if w = "typeof" then typeQuery g
    else if w = "import" then importType g
    else if w = "true" || w = "false" then literalType
    else if typeKeywords.contains w && !(← nextIs false (· = .sign ".")) then
      advance
      node (.keywordType w) lo []
    else
      guard (!Token.keywords.contains w || typeNames.contains w)
      typeReference g
  | _ => literalType

def postfixType : Nat → Node → Read Node
  | 0, _ => fail
  | fuel + 1, t => do
    if (← isSign "[") && !(← newLine) then
      advance
      if ← eat "]" then postfixType fuel (← node .arrayType t.lo [t])
      else
        let index ← g.type
        expect "]"
        postfixType fuel (← node .indexedType t.lo [t, index])
    else return t

/-- The constraint of an inferred type, unless the type is the test of a conditional one. -/
def inferConstraint : Read Node := do
  expectWord "extends"
  let before := (← mode).allowConditional
  let t ← withMode (fun m => { m with allowConditional := false }) g.type
  guard (!before || !(← isSign "?"))
  return t

def operatorType : Nat → Read Node
  | 0 => fail
  | fuel + 1 => do
    let lo ← lo
    let plain : Read Node := withMode (fun m => { m with allowConditional := true }) do
      postfixType g (← bound) (← primaryType g)
    match ← token with
    | .name w =>
      if w = "keyof" || w = "unique" || w = "readonly" then
        advance
        let t ← operatorType fuel
        node (.typeOperator w) lo [t]
      else if w = "infer" then
        advance
        let name ← anyName
        let constraint := (← tried (inferConstraint g)).getD .absent
        let p := Node.mk (.typeParam []) name.span [name, constraint, .absent]
        node .inferType lo [p]
      else plain
    | _ => plain

/-- Types with a sign between them, and perhaps before the first. -/
def typesWith (sign : String) (kind : Kind) (operand : Read Node) : Read Node := do
  let lo ← lo
  let _ ← eat sign
  match ← separated sign operand with
  | [t] => return t
  | ts => node kind lo ts

/-- Whether a left parenthesis starts the parameters of a function type. -/
def startsParameters : Read Bool := ahead do
  expect "("
  if (← isSign ")") || (← isSign "...") then return true
  else
    let isList := (← isSign "[") || (← isSign "\x7b")
    if isList then
      let _ ← g.pattern
    else
      let _ ← anyName
    let isMarked := (← isSign ":") || (← isSign ",") || (← isSign "=") || (← isSign "?")
    if isMarked then return true
    else
      expect ")"
      isSign "=>"

def unconditionalType : Read Node := do
  let isConstructor := (← isWord "new") || ((← isWord "abstract") &&
    (← nextIs false (· = .name "new")))
  if isConstructor then constructorType g
  else if (← isSign "<") || ((← isSign "(") && (← startsParameters g)) then functionType g
  else typesWith "|" .unionType (typesWith "&" .intersectionType (do operatorType g (← bound)))

def type : Read Node := do
  let lo ← lo
  let t ← unconditionalType g
  if (← mode).allowConditional && (← isWord "extends") && !(← newLine) then
    advance
    let test ← withMode (fun m => { m with allowConditional := false }) g.type
    expect "?"
    let yes ← g.type
    expect ":"
    let no ← g.type
    node .conditionalType lo [t, test, yes, no]
  else return t

end ScopedStyles.Script.Read
