import ScopedStyles.Script.Reader.Type

/-!
# Reading patterns

A pattern stands where variables are bound and on the left of an assignment. Bound patterns are
read as such; those of assignments and arrow functions are read as expressions first and made
patterns by `element?` once it is known what they are.
-/

namespace ScopedStyles.Script

namespace Node

/-- The names that strict code may not bind. -/
def isArgumentsOrEval : Node → Bool
  | mk (.ident w _) _ _ => w = "arguments" || w = "eval"
  | _ => false

/-- What may be assigned to as a whole. -/
def isSimpleTarget (strict : Bool) : Node → Bool
  | mk k s ks =>
    match k, ks with
    | .ident .., _ => !(strict && (mk k s ks).isArgumentsOrEval)
    | .member, _ => true
    | .paren, [e] | .asExpr, [e, _] | .satisfies, [e, _] | .nonNull, [e]
    | .typeAssertion, [e, _] | .instantiation, [e, _] => e.isSimpleTarget strict
    | _, _ => false

/-- Values that are never assigned to, but are let pass where nothing is checked before the program
runs. -/
def isPassable (calls : Bool) : Node → Bool
  | mk k _ ks =>
    match k, ks with
    | .string .., _ | .number _, _ | .bigint _, _ | .regex _, _ | .boolean _, _ | .null, _ => true
    | .binary _, _ => true
    | .call, _ => calls
    | .paren, [e] => e.isPassable calls
    | _, _ => false

/-- What the signs `++` and `--` may stand at. -/
def mayBeUpdated (strict : Bool) (n : Node) : Bool := n.isSimpleTarget strict || n.isPassable true

/-- What an element of an assigned pattern may be besides a pattern. -/
def isElementTarget (strict : Bool) (n : Node) : Bool :=
  (n.kind matches .ident .. | .member | .paren | .asExpr) && n.isSimpleTarget strict

def isHole (n : Node) : Bool := n.kind matches .hole

def dropHoles (ns : List Node) : List Node := (ns.reverse.dropWhile isHole).reverse

mutual

/-- An expression read as a pattern; one that binds holds names only. -/
def element? (binds strict : Bool) : Node → Option Node
  | mk k s ks =>
    match k, ks with
    | .ident w o, _ =>
      if binds || (mk k s ks).isElementTarget strict then
        some (mk .binding s [mk (.ident w o) s [], absent])
      else none
    | .array endsInComma, items => do
      let rest := !endsInComma && !(items.getLast?.any isHole)
      let items ← elements? binds strict rest items
      return mk (.arrayPattern false) s [list (dropHoles items), absent]
    | .object endsInComma, props => do
      let props ← propertyPatterns? binds strict (!endsInComma) props
      return mk (.objectPattern false) s [list props, absent]
    | .assign "=", [l, r] => some (mk .assignPattern s [l, r])
    | k, ks => if !binds && (mk k s ks).isElementTarget strict then some (mk k s ks) else none

/-- The elements of a list; its last one may take all that is left where `mayRest` says so. -/
def elements? (binds strict mayRest : Bool) : List Node → Option (List Node)
  | [] => some []
  | mk .hole s ks :: more => do return mk .hole s ks :: (← elements? binds strict mayRest more)
  | mk .spread s [e] :: more =>
    if mayRest && more.isEmpty && !(e.kind matches .assign _) then do
      return [mk (.rest s.lo) e.span [← e.element? binds strict, absent]]
    else none
  | e :: more => do
    return (← e.element? binds strict) :: (← elements? binds strict mayRest more)

def propertyPatterns? (binds strict mayRest : Bool) : List Node → Option (List Node)
  | [] => some []
  | mk .keyValue s [key, value] :: more => do
    let value ← value.element? binds strict
    return mk .keyValuePattern s [key, value] :: (← propertyPatterns? binds strict mayRest more)
  | mk (.ident w o) s _ :: more => do
    let name := mk .binding s [mk (.ident w o) s [], absent]
    return mk .shorthandPattern s [name, absent] :: (← propertyPatterns? binds strict mayRest more)
  | mk .assignProp s [mk (.ident w o) t _, value] :: more => do
    let name := mk .binding t [mk (.ident w o) t [], absent]
    return mk .shorthandPattern s [name, value] :: (← propertyPatterns? binds strict mayRest more)
  | mk .spread s [e] :: more =>
    let fits := if binds then e.kind matches .ident .. else !(e.kind matches .assign _)
    if mayRest && more.isEmpty && fits then do
      return [mk (.rest s.lo) s [← e.element? binds strict, absent]]
    else none
  | _ => none

end

def isList (n : Node) : Bool := n.kind matches .array _ | .object _

/-- An expression read as what an assignment sets. -/
def target? (strict : Bool) (n : Node) : Option Node :=
  if n.isList then n.element? false strict
  else if n.isSimpleTarget strict then some n else none

/-- An expression read as what a loop sets. -/
def loopTarget? (strict : Bool) (n : Node) : Option Node :=
  if n.isList then n.element? false strict
  else if n.isSimpleTarget strict || n.isPassable false then some n else none

mutual

/-- Whether a pattern binds a name that strict code may not bind. -/
def bindsReserved : Node → Bool
  | mk k s ks =>
    match k, ks with
    | .binding, n :: _ => n.isArgumentsOrEval
    | .arrayPattern _, items :: _ => items.bindsReserved
    | .objectPattern _, props :: _ => props.bindsReserved
    | .list, items => anyReserved items
    | .keyValuePattern, [_, value] => value.bindsReserved
    | .shorthandPattern, n :: _ => n.bindsReserved
    | .rest _, p :: _ => p.bindsReserved
    | .assignPattern, l :: _ => l.bindsReserved
    | _, _ => (mk k s []).isArgumentsOrEval

def anyReserved : List Node → Bool
  | [] => false
  | n :: ns => n.bindsReserved || anyReserved ns

end

end Node

namespace Read

variable (g : Grammar)

def toTarget (read : Bool → Node → Option Node) (n : Node) : Read Node := do
  match read (← mode).strict n with
  | some p => return p
  | none => fail

/-- A pattern with what stands for a missing value. -/
def withDefault (pattern : Read Node) : Read Node := do
  let lo ← lo
  let p ← pattern
  if ← eat "=" then
    let value ← defaultValue g
    check !(← mode).ambient
    node .assignPattern lo [p, value]
  else return p

def hole : Node := .mk .hole .none []

def elementPattern : Read Node := do
  let lo ← lo
  if ← isSign "," then return hole
  else if ← eat "..." then
    let p ← g.pattern
    node (.rest lo) lo [p, .absent]
  else withDefault g g.pattern

def isRest (n : Node) : Bool := n.kind matches .rest _

/-- Whether nothing but holes follows what takes all that is left. -/
def restIsLast (items : List Node) : Bool :=
  (items.dropWhile (!isRest ·)).tail.all Node.isHole

def arrayPattern : Read Node := do
  let lo ← lo
  expect "["
  let (items, endsInComma) ← commaList "]" (elementPattern g)
  expect "]"
  check (restIsLast items && !(endsInComma && items.getLast?.any isRest))
  node (.arrayPattern false) lo [.list items, .absent]

def propertyPattern : Read Node := do
  let lo ← lo
  if ← eat "..." then
    let p ← g.pattern
    node (.rest lo) lo [p, .absent]
  else
    let key ← propertyName g
    if ← eat ":" then
      let value ← withDefault g g.pattern
      node .keyValuePattern lo [key, value]
    else
      guard (key.kind matches .ident ..)
      let name := Node.mk .binding key.span [key, .absent]
      let value ← optional (← eat "=") (defaultValue g)
      node .shorthandPattern lo [name, value]

/-- What takes the properties that are left is a name and stands last. -/
def restOk (endsInComma : Bool) (props : List Node) : Bool :=
  !(props.dropLast.any isRest) && (props.getLast?.filter isRest).all fun r =>
    !endsInComma && r.kids.head?.any fun p => p.kind matches .binding

def objectPattern : Read Node := do
  let lo ← lo
  expect "\x7b"
  let (props, endsInComma) ← commaList "\x7d" (propertyPattern g)
  expect "\x7d"
  guard (restOk endsInComma props)
  node (.objectPattern false) lo [.list props, .absent]

/-- What a variable declaration, a parameter or a catch clause binds. -/
def pattern : Read Node := do
  match ← token with
  | .sign "[" => arrayPattern g
  | .sign "\x7b" => objectPattern g
  | _ =>
    let name ← bindingName
    return .mk .binding name.span [name, .absent]

/-- The patterns of the parameters of an arrow function, from what stood in its parentheses. -/
def toParameters (endsInComma : Bool) : List Node → Read (List Node)
  | [] => return []
  | n :: more => do
    match n with
    | .mk .spread s [e] =>
      check (more.isEmpty && !endsInComma && !(e.kind matches .assign _))
      let p ← toTarget (Node.element? true) e
      return .mk (.rest s.lo) e.span [p, .absent] :: (← toParameters endsInComma more)
    | .mk k s ks =>
      let p ← match k with
        | .rest _ =>
          check (more.isEmpty && !endsInComma)
          pure n
        | .binding | .arrayPattern _ | .objectPattern _ | .assignPattern => pure n
        | _ => toTarget (Node.element? true) (.mk k s ks)
      return p :: (← toParameters endsInComma more)

end Read

end ScopedStyles.Script
