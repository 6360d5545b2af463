/-!
# Scripts as trees

A node has a kind, a span and children. The children of each kind stand in the order in which they
are visited; a child that is missing is a node of kind `absent`, and a row of children of one role
is a node of kind `list`.
-/

namespace ScopedStyles.Script

/-- A stretch of the sources, from one position up to another. Positions count bytes over all
sources from one; a node that comes from no source has the empty span at zero. -/
structure Span where
  lo : Nat
  hi : Nat
deriving DecidableEq, Repr, Inhabited

namespace Span

def none : Span := ⟨0, 0⟩

def isNone (s : Span) : Bool := s.lo = 0 && s.hi = 0

end Span

/-- The words that declare variables. -/
inductive Variable where
  | var_ | let_ | const_ | using_ | awaitUsing
deriving DecidableEq, Repr, Inhabited

def Variable.text : Variable → String
  | var_ => "var"
  | let_ => "let"
  | const_ => "const"
  | using_ => "using"
  | awaitUsing => "await using"

/-- When an imported module is evaluated. -/
inductive Phase where
  | evaluation | source | deferred
deriving DecidableEq, Repr, Inhabited

/-- What marks a function. -/
structure FunctionMarks where
  isAsync : Bool
  isGenerator : Bool
deriving DecidableEq, Repr, Inhabited

def FunctionMarks.plain : FunctionMarks := ⟨false, false⟩

/-- The words before a member of a class. -/
structure MemberMarks where
  access : Option String
  isDeclare : Bool
  isStatic : Bool
  isAbstract : Bool
  isOverride : Bool
  isReadonly : Bool
  isOptional : Bool
  isDefinite : Bool
  isAccessor : Bool
deriving DecidableEq, Repr, Inhabited

def MemberMarks.plain : MemberMarks :=
  ⟨none, false, false, false, false, false, false, false, false⟩

/-- The marks with one more word. -/
def MemberMarks.mark (m : MemberMarks) (w : String) : MemberMarks :=
  if w = "declare" then { m with isDeclare := true }
  else if w = "static" then { m with isStatic := true }
  else if w = "abstract" then { m with isAbstract := true }
  else if w = "override" then { m with isOverride := true }
  else if w = "readonly" then { m with isReadonly := true }
  else if w = "accessor" then { m with isAccessor := true }
  else { m with access := some w }

inductive MethodKind where
  | method | getter | setter
deriving DecidableEq, Repr, Inhabited

/-- What a node is, with what is said of it besides its children. A `rest` knows where its points
stand; a list that `endsInComma` has a comma behind its last item. -/
inductive Kind where
  | absent
  | list
  -- names and literals
  | ident (name : String) (isOptional : Bool)
  | privateName (name : String)
  | string (value : Option String) (written : Option String)
  | number (written : String)
  | bigint (written : String)
  | regex (written : String)
  | boolean (b : Bool)
  | null
  | this
  | superWord
  | importWord (phase : Phase)
  | metaProperty (text : String)
  | template
  | quasi (written : String)
  | taggedTemplate
  -- expressions
  | array (endsInComma : Bool)
  | hole
  | object (endsInComma : Bool)
  | keyValue
  | assignProp
  | getterProp
  | setterProp
  | methodProp (marks : FunctionMarks)
  | spread
  | computed
  | unary (operator : String)
  | update (operator : String) (isBefore : Bool)
  | binary (operator : String)
  | assign (operator : String)
  | conditional
  | sequence
  | call
  | optionalCall (here : Bool)
  | newCall
  | member
  | optionalMember (here : Bool)
  | arrow (marks : FunctionMarks)
  | function (marks : FunctionMarks)
  | functionExpr
  | classBody
  | classExpr
  | yield_ (delegate : Bool)
  | await_
  | paren
  -- patterns
  | binding
  | arrayPattern (isOptional : Bool)
  | objectPattern (isOptional : Bool)
  | keyValuePattern
  | shorthandPattern
  | rest (dots : Nat)
  | assignPattern
  | parameterProperty (marks : MemberMarks)
  | parameter
  -- members of classes
  | constructor_ (marks : MemberMarks)
  | method (marks : MemberMarks) (kind : MethodKind)
  | property (marks : MemberMarks)
  | staticBlock
  | semicolonMember
  -- markup
  | element
  | opening (selfClosing : Bool)
  | closing
  | fragment
  | attribute
  | spreadAttribute
  | container
  | emptyExpr
  | spreadChild
  | markupText (written : String)
  | memberName
  | namespacedName
  -- statements
  | block
  | empty
  | debugger
  | with_
  | return_
  | labeled
  | break_
  | continue_
  | if_
  | switch
  | case_
  | throw_
  | try_
  | catch_
  | while_
  | doWhile
  | for_
  | forIn
  | forOf (isAwait : Bool)
  | exprStmt
  | variables (word : Variable) (isDeclare : Bool)
  | declarator
  | functionDecl (isDeclare : Bool)
  | classDecl (isDeclare isAbstract : Bool)
  -- imports and exports
  | importDecl (typeOnly : Bool) (phase : Phase)
  | importNamed (typeOnly : Bool)
  | importDefault
  | importNamespace
  | exportDecl
  | exportNamed (typeOnly : Bool)
  | exportSpecifier (typeOnly : Bool)
  | exportNamespace
  | exportDefaultName
  | exportDefaultDecl
  | exportDefaultExpr
  | exportAll (typeOnly : Bool)
  -- types
  | keywordType (word : String)
  | thisType
  | typeRef
  | qualifiedName
  | typeArgs
  | typeParams
  | typeParam (marks : List String)
  | typeAnn
  | functionType
  | constructorType (isAbstract : Bool)
  | typeQuery
  | typeLiteral
  | arrayType
  | tupleType
  | tupleElement
  | optionalType
  | restType
  | unionType
  | intersectionType
  | conditionalType
  | inferType
  | parenType
  | typeOperator (word : String)
  | indexedType
  | mappedType (readonly : Option String) (optional : Option String)
  | literalType
  | templateType
  | typePredicate (asserts : Bool)
  | importType
  | propertySignature (isReadonly isOptional : Bool)
  | methodSignature (isOptional : Bool)
  | getterSignature
  | setterSignature
  | callSignature
  | constructSignature
  | indexSignature (isReadonly isStatic : Bool)
  | interface (isDeclare : Bool)
  | heritage
  | typeAlias (isDeclare : Bool)
  | enum (isDeclare isConst : Bool)
  | enumMember
  | module_ (isDeclare isGlobal : Bool) (word : String)
  | moduleBlock
  | importEquals (isExport typeOnly : Bool)
  | externalModule
  | exportAssignment
  | namespaceExport
  -- expressions with types
  | asExpr
  | asConst
  | satisfies
  | nonNull
  | typeAssertion
  | instantiation
deriving Inhabited

inductive Node where
  | mk (kind : Kind) (span : Span) (kids : List Node)
deriving Inhabited

namespace Node

def kind : Node → Kind
  | mk k _ _ => k

def span : Node → Span
  | mk _ s _ => s

def kids : Node → List Node
  | mk _ _ ks => ks

def lo (n : Node) : Nat := n.span.lo

def hi (n : Node) : Nat := n.span.hi

def absent : Node := mk .absent Span.none []

def list (ns : List Node) : Node := mk .list Span.none ns

def isAbsent (n : Node) : Bool :=
  match n.kind with
  | .absent => true
  | _ => false

def name (s : String) (span : Span) : Node := mk (.ident s false) span []

/-- A string that was never written. -/
def text (s : String) (span : Span) : Node := mk (.string (some s) none) span []

/-- Whether a statement is a string alone, as directives are. -/
def isDirective : Node → Bool
  | mk .exprStmt _ [mk (.string _ _) _ _] => true
  | _ => false

mutual

/-- How deep the tree is. -/
def depth : Node → Nat
  | mk _ _ ks => depthOf ks + 1

def depthOf : List Node → Nat
  | [] => 0
  | n :: ns => max n.depth (depthOf ns)

end

end Node

/-- A whole source: its kind, its first line if that is for the shell, and its items. -/
structure Program where
  isModule : Bool
  shebang : Option String
  span : Span
  body : List Node
deriving Inhabited

end ScopedStyles.Script
