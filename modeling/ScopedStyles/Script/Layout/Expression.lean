import ScopedStyles.Script.Layout

/-!
# Layouts of expressions and patterns

Operators have a blank on each side, the items of arrays and objects have lines of their own, and
those of patterns share one.
-/

namespace ScopedStyles.Script.Layout

/-! ## Functions -/

def block (marked : Bool) (p : Part) : Layout :=
  let s := p.node.span
  let body :=
    if p.kids.isEmpty then [.lineIfComment (s.hi - 1)] else inLines s none statement p.kids
  .leading s.lo :: (if marked then [.mark s.lo] else []) ++ say "\x7b" ++ body ++
    [.leading (s.hi - 1)] ++ beforeEnd s ++ say "\x7d"
where
  /-- A statement with the comments behind it; blocks end no line. -/
  statement (p : Part) : Layout :=
    match p.kind with
    | .block => p.plain
    | _ => p.plain ++ [.trailing p.hi true, .line]

/-- A statement on its own. -/
def statement (p : Part) : Layout := block.statement p

/-- A type behind the sign that sets it off. -/
def annotation (ann : Part) : Layout := after ": " ann ann.plain

/-- The parameters of a function from its type parameters on, and what it returns. -/
def signature (s : Span) (tps params returns : Part) : Layout :=
  tps.plain ++ say "(" ++ inLine s Part.plain params.kids ++ say ")" ++ annotation returns

/-- A function behind its name; `marked` says whether its body answers to a position of its own. -/
def functionTail (marked : Bool) (f : Part) : Layout :=
  signature f.node.span (f.kid 2) (f.kid 0) (f.kid 3) ++
    if (f.kid 1).isAbsent then say ";" else space ++ block marked (f.kid 1)

def functionMarks (f : Part) : FunctionMarks :=
  match f.kind with
  | .function m => m
  | _ => .plain

/-- A function from its word on. -/
def function (name f : Part) : Layout :=
  let m := functionMarks f
  on m.isAsync "async " ++ say "function" ++ on m.isGenerator "*" ++
    (if name.isAbsent then [] else space ++ name.plain) ++ functionTail false f

def arrow (s : Span) (m : FunctionMarks) (params body tps returns : Part) : Layout :=
  let inner := match body.kind with
    | .block => block false body
    | _ => [.indent] ++ body.whole ++ [.dedent]
  opened s ++ on m.isAsync "async " ++ tps.plain ++ say "(" ++ inLine s Part.whole params.kids ++
    say ")" ++ after ": " returns (returns.plain ++ space) ++ say "=>" ++ inner

/-! ## Classes -/

def memberMarks (m : MemberMarks) : Layout :=
  on m.isDeclare "declare " ++ (m.access.map fun w => say (w ++ " ")).getD [] ++
    on m.isStatic "static " ++ on m.isAbstract "abstract " ++ on m.isOverride "override " ++
    on m.isReadonly "readonly " ++ on m.isAccessor "accessor "

def nameMarks (m : MemberMarks) : Layout := on m.isOptional "?" ++ on m.isDefinite "!"

/-- The comments before the name of a method stand before the whole method. -/
def method (s : Span) (m : MemberMarks) (kind : MethodKind) (key f : Part) : Layout :=
  let word := match kind with
    | .getter => "get "
    | .setter => "set "
    | .method => ""
  let early := match key.kind with
    | .privateName _ => []
    | _ => [.leading key.lo]
  let marks := functionMarks f
  early ++ opened s ++ memberMarks m ++ on marks.isAsync "async " ++ on marks.isGenerator "*" ++
    say word ++ key.plain ++ nameMarks m ++ functionTail true f

def constructor (s : Span) (m : MemberMarks) (params body : Part) : Layout :=
  opened s ++ memberMarks m ++ say "constructor(" ++ inLine s Part.plain params.kids ++ say ")" ++
    if body.isAbsent then say ";" else block true body

def field (s : Span) (m : MemberMarks) (key value ann : Part) : Layout :=
  (if m.isAccessor then [] else opened s) ++ memberMarks m ++ key.plain ++ nameMarks m ++
    annotation ann ++ after " = " value value.whole ++ say ";" ++ atEnd s

/-- A class from behind its type parameters on; `s` is the span of the whole. -/
def classTail (s : Span) (body : Part) : Layout :=
  let base := body.kid 1
  let implemented := (body.kid 4).kids
  let members := (body.kid 0).kids
  after " extends " base base.whole ++ (body.kid 3).plain ++
    (if implemented.isEmpty then []
      else say " implements " ++ inLine s Part.plain implemented) ++ say " \x7b" ++
    (if members.isEmpty then [.line] else inLines s none Part.plain members) ++
    [.leading (s.hi - 1)] ++ beforeEnd s ++ say "\x7d"

/-- A class from its word on; `typed` says whether its type parameters are written. -/
def «class» (typed : Bool) (s : Span) (name body : Part) : Layout :=
  say "class" ++ (if name.isAbsent then [] else space ++ name.plain) ++
    (if typed then (body.kid 2).plain else []) ++ classTail s body

/-! ## Literals -/

/-- A character of a string that was never written, between quotes of the given kind. -/
def stringChar (quote c : Char) (digitFollows : Bool) : String :=
  let n := c.toNat
  if c = '\n' then "\\n" else if c = '\r' then "\\r" else if n = 8 then "\\b"
  else if n = 12 then "\\f" else if n = 11 then "\\v"
  else if n = 0 then if digitFollows then "\\x00" else "\\0"
  else if c = '\\' then "\\\\"
  else if c = quote then "\\" ++ c.toString
  else if n < 32 && c ≠ '\t' then
    "\\x" ++ String.ofList [Nat.digitChar (n / 16), Nat.digitChar (n % 16)]
  else if n = 0x2028 then "\\u2028" else if n = 0x2029 then "\\u2029"
  else if n = 0xFEFF then "\\uFEFF"
  else c.toString

def stringChars (quote : Char) : List Char → String
  | [] => ""
  | c :: cs => stringChar quote c (cs.head?.any Char.isDigit) ++ stringChars quote cs

/-- A string in double quotes, or in single ones if it holds more of the double kind. -/
def quoted (s : String) : String :=
  let cs := s.toList
  let quote := if cs.count '\'' < cs.count '"' then '\'' else '"'
  quote.toString ++ stringChars quote cs ++ quote.toString

/-- Writes each end of a line as one character. -/
def oneLineEnd (written : String) : String := (written.replace "\r\n" "\n").replace "\r" "\n"

/-- A template without what stands before it; `chunk` says how its own texts are written. -/
def template (chunk : String → String) (item : Part → Layout) (es chunks : List Part) : Layout :=
  let rec parts : List Part → List Part → Layout
    | c :: cs, e :: es => text c ++ say "$\x7b" ++ item e ++ say "\x7d" ++ parts cs es
    | cs, _ => (cs.map text).flatten
  say "`" ++ parts chunks es ++ say "`"
where
  text (c : Part) : Layout :=
    match c.kind with
    | .quasi w => say (chunk w)
    | _ => []

def isHole (p : Part) : Bool :=
  match p.kind with
  | .hole => true
  | _ => false

/-- A list that ends in a hole has a comma behind it. -/
def holeEnd (items : List Part) : Layout := on (items.getLast?.any isHole) ", "

/-- An item of an array or an argument. -/
def spreadOr (p : Part) : Layout :=
  match p.kind with
  | .spread => marked ⟨p.lo, p.lo + 3⟩ "..." ++ (p.kid 0).whole
  | _ => p.whole

def array (s : Span) (items : List Part) : Layout :=
  opened s ++ say "[" ++
    (if items.isEmpty then []
      else [.line, .indent] ++ row s (some ",") [.line] spreadOr items ++ holeEnd items ++
        [.dedent, .line]) ++ say "]" ++ atEnd s

def object (s : Span) (props : List Part) : Layout :=
  opened s ++ say "\x7b" ++
    (if props.isEmpty then [.lineIfComment (s.hi - 1)] else inLines s (some ",") Part.plain props) ++
    beforeEnd s ++ say "\x7d"

/-! ## Operators -/

/-- Whether two signs would run together. -/
def runsTogether (op : String) (p : Part) : Bool :=
  match p.kind with
  | .unary inner => (op = "+" || op = "-") && inner = op
  | .update inner isBefore => isBefore && (op = "+" && inner = "++" || op = "-" && inner = "--")
  | _ => false

def unary (op : String) (e : Part) : Layout :=
  let isWord := op = "typeof" || op = "void" || op = "delete"
  say op ++ on (isWord || runsTogether op e) " " ++ e.whole

/-! ## Members and calls -/

/-- What a member or a call is taken of. -/
def base (p : Part) : Layout :=
  match p.kind with
  | .newCall => p.plain
  | _ => p.whole

/-- A whole number, behind which a point would be read as part of the number. -/
def isWhole (written : String) : Bool :=
  let ds := written.toList.filter (· ≠ '_')
  ds.all Char.isDigit && !(ds.head? = some '0' && 1 < ds.length)

/-- A member from its object on. -/
def member (s : Span) (e key : Part) : Layout :=
  let point : Layout := .leading (key.lo - 1) :: say "."
  match key.kind, e.kind with
  | .computed, .number _ => opened s ++ e.plain ++ key.plain ++ atEnd s
  | .computed, _ => opened s ++ base e ++ key.plain ++ atEnd s
  | _, .superWord => opened s ++ e.plain ++ say "." ++ key.plain
  | _, .number w =>
    let extra := if isWhole w then .leading (key.lo - 2) :: say "." else []
    opened s ++ e.plain ++ extra ++ point ++ key.plain ++ atEnd s
  | _, _ => opened s ++ base e ++ point ++ key.plain ++ atEnd s

/-- A member of a chain. -/
def chained (s : Span) (here : Bool) (e key : Part) : Layout :=
  let sign := match key.kind with
    | .computed => on here "?."
    | _ => say (if here then "?." else ".")
  .leading s.lo :: base e ++ sign ++ key.plain

def arguments (s : Span) (args : Part) : Layout := say "(" ++ inLine s spreadOr args.kids ++ say ")"

/-- The layout of an expression; none for other nodes. -/
def expression (k : Kind) (s : Span) (ks : List Part) : Option Layout :=
  match k, ks with
  | .ident w o, _ => some (opened s ++ say w ++ on o "?")
  | .privateName w, _ => some (opened s ++ say "#" ++ opened s ++ say w ++ atEnd s)
  | .string _ (some w), _ => some (opened s ++ say w)
  | .string v none, _ => some (opened s ++ say (quoted (v.getD "")))
  | .number w, _ => some (opened s ++ say w)
  | .bigint w, _ => some (marked s w)
  | .regex w, _ => some (opened s ++ say w)
  | .boolean b, _ => some (opened s ++ say (if b then "true" else "false"))
  | .null, _ => some (opened s ++ say "null")
  | .this, _ => some (marked s "this")
  | .superWord, _ => some (marked s "super")
  | .importWord .evaluation, _ => some (marked s "import")
  | .importWord .source, _ => some (marked s "import" ++ say ".source")
  | .importWord .deferred, _ => some (marked s "import" ++ say ".defer")
  | .metaProperty w, _ => some (opened s ++ say w)
  | .template, [es, cs] =>
    some (opened s ++ template oneLineEnd Part.whole es.kids cs.kids ++ atEnd s)
  | .taggedTemplate, [tag, args, t] =>
    some (opened s ++ base tag ++ args.plain ++ opened t.node.span ++
      template id Part.whole (t.kid 0).kids (t.kid 1).kids ++ atEnd t.node.span)
  | .array _, items => some (array s items)
  | .object _, props => some (object s props)
  | .keyValue, [key, value] => some (opened s ++ key.plain ++ say ": " ++ value.whole)
  | .assignProp, [key, value] => some (opened s ++ key.plain ++ say "=" ++ value.whole)
  | .getterProp, [key, _, body] =>
    some (opened s ++ say "get " ++ key.plain ++ say " () " ++
      if body.isAbsent then [] else block true body)
  | .setterProp, [key, params, body] =>
    some (opened s ++ say "set " ++ key.plain ++ say " (" ++
      joined (say ", ") (params.kids.map Part.whole) ++ say ")" ++
      if body.isAbsent then [] else block true body)
  | .methodProp m, [key, f] =>
    some (opened s ++ on m.isAsync "async " ++ on m.isGenerator "*" ++ key.plain ++ space ++
      functionTail false f)
  | .spread, [e] => some (opened s ++ say "..." ++ e.whole ++ atEnd s)
  | .computed, [e] => some (opened s ++ say "[" ++ e.whole ++ say "]" ++ atEnd s)
  | .unary op, [e] => some (opened s ++ unary op e)
  | .update op true, [e] => some (opened s ++ say op ++ e.whole)
  | .update op false, [e] => some (opened s ++ e.whole ++ say op)
  | .binary op, [l, r] => some ([.leading s.lo] ++ l.whole ++ say (" " ++ op ++ " ") ++ r.whole)
  | .assign op, [l, r] => some ([.leading s.lo] ++ l.plain ++ say (" " ++ op ++ " ") ++ r.whole)
  | .conditional, [t, y, n] =>
    some (opened s ++ t.whole ++ say " ? " ++ y.whole ++ say " : " ++ n.whole)
  | .sequence, es => some (opened s ++ joined (say ", ") (es.map Part.whole))
  | .call, [f, args, targs] => some (opened s ++ base f ++ targs.plain ++ arguments s args)
  | .optionalCall here, [f, args, targs] =>
    some ([.leading s.lo] ++ base f ++ on here "?." ++ targs.plain ++ arguments s args)
  | .newCall, [f, args, targs] =>
    some (opened s ++ say "new " ++ f.whole ++ targs.plain ++
      if args.isAbsent then [] else arguments s args)
  | .member, [e, k] => some (member s e k)
  | .optionalMember here, [e, k] => some (chained s here e k)
  | .arrow m, [ps, body, tps, r] => some (arrow s m ps body tps r)
  | .functionExpr, [name, f] => some (opened s ++ function name f)
  | .classExpr, [name, body] => some (opened s ++ «class» false s name body)
  | .yield_ delegate, [e] =>
    some (opened s ++ say "yield" ++ on delegate "*" ++ after " " e e.whole)
  | .await_, [e] => some (opened s ++ say "await " ++ e.whole)
  | .paren, [e] => some (opened s ++ say "(" ++ e.whole ++ beforeEnd s ++ say ")")
  | .asExpr, [e, t] => some ([.leading s.lo] ++ e.whole ++ say " as " ++ t.plain)
  | .asConst, [e] => some ([.leading s.lo] ++ e.whole ++ say " as const")
  | .satisfies, [e, t] => some ([.leading s.lo] ++ e.whole ++ say " satisfies " ++ t.plain)
  | .nonNull, [e] => some ([.leading s.lo] ++ e.whole ++ say "!")
  | .typeAssertion, [e, t] =>
    some ([.leading s.lo] ++ say "<" ++ t.plain ++ say ">" ++ e.whole)
  | .instantiation, [e, args] => some ([.leading s.lo] ++ e.whole ++ args.plain)
  | _, _ => none

/-! ## Patterns -/

/-- The layout of a pattern; none for other nodes. -/
def pattern (k : Kind) (s : Span) (ks : List Part) : Option Layout :=
  match k, ks with
  | .binding, [name, ann] => some (name.plain ++ annotation ann)
  | .arrayPattern o, [items, ann] =>
    some (opened s ++ say "[" ++ inLine s Part.whole items.kids ++ holeEnd items.kids ++ say "]" ++
      on o "?" ++ annotation ann ++ atEnd s)
  | .objectPattern o, [props, ann] =>
    let inner := if props.kids.isEmpty then []
      else space ++ inLine s Part.plain props.kids ++ space
    some (opened s ++ say "\x7b" ++ inner ++ say "\x7d" ++ on o "?" ++ annotation ann ++ atEnd s)
  | .keyValuePattern, [key, value] =>
    some (opened s ++ key.plain ++ say ": " ++ value.whole ++ atEnd s)
  | .shorthandPattern, [name, value] =>
    some (opened s ++ name.plain ++ after " = " value value.whole ++ atEnd s)
  | .rest dots, [p, ann] =>
    some (.leading s.lo :: .mark dots :: say "..." ++ [.mark (dots + 3)] ++ p.whole ++
      annotation ann)
  | .assignPattern, [l, r] => some (opened s ++ l.whole ++ say " = " ++ r.whole ++ atEnd s)
  | .parameter, [p] => some (opened s ++ p.whole ++ atEnd s)
  | .parameterProperty m, [p] => some ([.leading s.lo] ++ memberMarks m ++ p.plain)
  | _, _ => none

/-- The layout of a member of a class; none for other nodes. -/
def classMember (k : Kind) (s : Span) (ks : List Part) : Option Layout :=
  match k, ks with
  | .constructor_ m, [_, ps, body] => some (constructor s m ps body)
  | .method m kind, [key, f] => some (method s m kind key f)
  | .property m, [key, value, ann] => some (field s m key value ann)
  | .staticBlock, [b] => some (opened s ++ say "static" ++ block true b)
  | .semicolonMember, _ => some (opened s ++ say ";")
  | _, _ => none

end ScopedStyles.Script.Layout
