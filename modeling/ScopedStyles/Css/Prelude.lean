import ScopedStyles.Css.Declaration
import ScopedStyles.Css.Selector.Reader

/-!
# Preludes of at-rules

What stands between an at-rule's name and its block. A known prelude is text with selectors in it;
an unknown one is kept as written. `Query` holds the conditions that `@media`, `@supports` and
`@container` share.
-/

namespace ScopedStyles.Css

inductive Piece where
  | text (s : String)
  | selector (c : ComplexSelector)

namespace Piece

def print : Piece → String
  | text s => s
  | selector c => c.text

/-- Pieces with a separator between the groups. -/
def join (separator : String) : List (List Piece) → List Piece
  | [] => []
  | [ps] => ps
  | ps :: rest => ps ++ text separator :: join separator rest

def selectors (cs : List ComplexSelector) : List Piece := join ", " (cs.map fun c => [selector c])

end Piece

inductive Prelude where
  | absent
  | raw (text : String)
  | known (pieces : List Piece)

instance : Inhabited Prelude := ⟨.absent⟩

namespace Prelude

def text : Prelude → String
  | absent => ""
  | raw s => s
  | known ps => (if ps.isEmpty then "" else " ") ++ String.join (ps.map Piece.print)

/-- What stands between the prelude and a block. -/
def gap : Prelude → String
  | known _ => " "
  | _ => ""

def words (s : String) : Prelude := known [.text s]

end Prelude

namespace Query

/-- A number, a ratio, a word or a mathematical function at the start of some parts. -/
def value : List Part → Option (String × List Part)
  | .token (.number n) :: rest =>
    match Part.trimLeft rest with
    | .token (.delim '/') :: more =>
      match Part.trimLeft more with
      | .token (.number m) :: more => some (n.written ++ "/" ++ m.written, more)
      | _ => some (n.written, rest)
    | _ => some (n.written, rest)
  | .token (.dimension n u) :: rest => some (Value.dimensionText n u, rest)
  | .token (.ident n) :: rest => some (Name.printAny n.value, rest)
  | .function n args :: rest => do
    if Value.isMath n.value then return ((← Value.ofFunction n args).text, rest) else none
  | _ => none

/-- What two values are compared by: the direction, if there is one, and the text. -/
def comparison : List Part → Option (Option Char × String × List Part)
  | .token (.delim '=') :: rest => some (none, " = ", rest)
  | .token (.delim c) :: .token (.delim '=') :: rest =>
    if c = '<' || c = '>' then some (some c, " " ++ c.toString ++ "= ", rest) else none
  | .token (.delim c) :: rest =>
    if c = '<' || c = '>' then some (some c, " " ++ c.toString ++ " ", rest) else none
  | _ => none

def isName : List Part → Bool
  | .token (.ident _) :: _ => true
  | _ => false

/-- What stands behind the first value of a feature: nothing, a value, or one or two comparisons.
Two comparisons go the same way and have a name between them. -/
def featureTail (left : String) (named : Bool) (ps : List Part) : Option String := do
  match Part.trimLeft ps with
  | [] => if named then return left else none
  | .token (.delim ':') :: rest =>
    match ← value (Part.trimLeft rest) with
    | (v, rest) => if named && (Part.trimLeft rest).isEmpty then return left ++ ": " ++ v else none
  | ps =>
    let (way, sign, rest) ← comparison ps
    let middle := Part.trimLeft rest
    let (m, rest) ← value middle
    match Part.trimLeft rest with
    | [] => return left ++ sign ++ m
    | rest =>
      let (way', sign', rest) ← comparison rest
      let (right, rest) ← value (Part.trimLeft rest)
      if way.isSome && way = way' && isName middle && (Part.trimLeft rest).isEmpty then
        return left ++ sign ++ m ++ sign' ++ right
      else none

/-- One feature: its name, its name and value, or a range. -/
def feature (ps : List Part) : Option String := do
  let ps := Part.trimLeft ps
  let (left, rest) ← value ps
  featureTail left (isName ps) rest

/-- The operands behind the first, with the same word before each. -/
def operands (inBrackets : Part → Option (List Piece)) (word : String) :
    List Part → Option (List Piece)
  | [] => some []
  | w :: p :: rest => do
    if w.isWord word then
      return .text (" " ++ word ++ " ") :: (← inBrackets p) ++ (← operands inBrackets word rest)
    else none
  | _ => none

/-- A negation, a conjunction or a disjunction, the blanks left out. -/
def condition (inBrackets : Part → Option (List Piece)) (disjunction : Bool) :
    List Part → Option (List Piece)
  | [] => none
  | [n, p] => if n.isWord "not" then do return .text "not " :: (← inBrackets p) else none
  | p :: rest => do
    let first ← inBrackets p
    match rest with
    | [] => return first
    | w :: _ =>
      if w.isWord "or" then
        if disjunction then return first ++ (← operands inBrackets "or" rest) else none
      else return first ++ (← operands inBrackets "and" rest)

def bracketed (ps : List Piece) : List Piece := .text "(" :: ps ++ [.text ")"]

/-- A term that no grammar reads: a function, or brackets that start with a name. -/
def unknownTerm : Part → Option (List Piece)
  | .function n args => do return [.text (← Value.ofFunction n args).text]
  | .block .paren inner =>
    if inner.isEmpty || isName inner then some [.text ("(" ++ Part.textOf inner ++ ")")] else none
  | _ => none

/-- A feature or a condition in brackets, at most `depth` deep. -/
def term : Nat → Part → Option (List Piece)
  | 0, _ => none
  | depth + 1, .block .paren inner =>
    match feature inner with
    | some s => some [.text ("(" ++ s ++ ")")]
    | none =>
      match condition (term depth) true (Part.words inner) with
      | some ps => some (bracketed ps)
      | none => unknownTerm (.block .paren inner)
  | _, p => unknownTerm p

def isReserved (p : Part) : Bool :=
  p.isWord "not" || p.isWord "only" || p.isWord "and" || p.isWord "or" || p.isWord "layer"

/-- A medium with the conditions behind it. -/
def medium (term : Part → Option (List Piece)) : List Part → Option (List Piece)
  | .token (.ident n) :: rest => do
    if isReserved (.token (.ident n)) then none
    else
      match rest with
      | [] => return [.text (Name.print n.value)]
      | w :: ps =>
        if w.isWord "and" then
          return .text (Name.print n.value ++ " and ") :: (← condition term false ps)
        else none
  | _ => none

/-- A medium, perhaps modified, or a condition. The word `only` means nothing before a condition. -/
def mediaQuery (ps : List Part) : Option (List Piece) :=
  let term := term (Part.depthOf ps + 1)
  match Part.words ps with
  | .token (.ident m) :: .token (.ident n) :: rest =>
    let first := Part.token (.ident m)
    if first.isWord "not" || first.isWord "only" then do
      return .text (Name.print m.value ++ " ") :: (← medium term (.token (.ident n) :: rest))
    else medium term (first :: .token (.ident n) :: rest)
  | .token (.ident n) :: rest =>
    let first := Part.token (.ident n)
    if first.isWord "only" then condition term true rest
    else if isReserved first then condition term true (first :: rest)
    else medium term (first :: rest)
  | ps => condition term true ps

def mediaList (ps : List Part) : Option (List Piece) := do
  return Piece.join ", " (← (Part.splitCommas ps).mapM mediaQuery)

/-- Whether brackets hold a name and a colon. -/
def isDeclaration (ps : List Part) : Bool :=
  match Part.trimLeft ps with
  | .token (.ident _) :: rest =>
    match Part.trimLeft rest with
    | .token (.delim ':') :: _ => true
    | _ => false
  | _ => false

/-- A declaration, a selector or a condition that can be supported. Of several selectors only the
first counts. -/
def supportsTerm : Nat → Part → Option (List Piece)
  | 0, _ => none
  | depth + 1, .block .paren inner =>
    if isDeclaration inner then do
      return [.text ("(" ++ (← Declaration.ofParts inner).text ++ ")")]
    else
      match condition (supportsTerm depth) true (Part.words inner) with
      | some ps => some (bracketed ps)
      | none => unknownTerm (.block .paren inner)
  | _, .function n args =>
    if lower n.value = "selector" then do
      let c ← ComplexSelector.ofParts ((Part.splitCommas args).headD [])
      return [.text (Name.print n.value ++ "("), .selector c, .text ")"]
    else unknownTerm (.function n args)
  | _, _ => none

def supports (ps : List Part) : Option (List Piece) :=
  condition (supportsTerm (Part.depthOf ps + 1)) true (Part.words ps)

/-- A condition on a container, which may be named. -/
def container (ps : List Part) : Option (List Piece) :=
  let term := term (Part.depthOf ps + 1)
  match Part.words ps with
  | .token (.ident n) :: rest =>
    if lower n.value = "not" then condition term true (.token (.ident n) :: rest)
    else do return .text (Name.print n.value ++ " ") :: (← condition term true rest)
  | ps => condition term true ps

end Query

namespace Prelude

/-- Names with points between them; a point too many is left out. -/
def layerName (ps : List Part) : Option String := do
  let names ← ps.mapM fun p =>
    match p with
    | .token (.ident n) => some [Name.print n.value]
    | .token (.delim '.') => some []
    | _ => none
  if names.flatten.isEmpty then none else return ".".intercalate names.flatten

def layerNames (ps : List Part) : Option String := do
  return ", ".intercalate (← (Part.splitCommas ps).mapM fun ps => layerName (Part.trim ps))

/-- Names that mean something everywhere and so name nothing of their own. -/
def isReservedName (name : String) : Bool :=
  lower name ∈ ["initial", "inherit", "unset", "revert", "default"]

def word (ps : List Part) : Option Prelude :=
  match Part.trim ps with
  | [.token (.ident n)] =>
    if isReservedName n.value then none else some (words (Name.printAny n.value))
  | _ => none

def customName (ps : List Part) : Option Prelude :=
  match Part.trim ps with
  | [.token (.ident n)] =>
    if Name.isCustom n.value && n.value ≠ "--" then some (words (Name.printAny n.value)) else none
  | _ => none

/-- The name of an animation, which a `:local` or `:global` may wrap. -/
def animationName (ps : List Part) : Option Prelude :=
  match Part.trim ps with
  | [.token (.ident n)] =>
    if isReservedName n.value || lower n.value = "none" then none
    else some (words (Name.printAny n.value))
  | [.token (.string _ w)] => some (words w)
  | .token (.delim ':') :: .function n args :: [] =>
    match Part.trim args with
    | [.token (.ident m)] =>
      if lower n.value = "local" ∨ lower n.value = "global" then
        some (words (":" ++ Name.print n.value ++ "(" ++ Name.print m.value ++ ")"))
      else none
    | [.token (.string _ w)] => some (words (":" ++ Name.print n.value ++ "(" ++ w ++ ")"))
    | _ => none
  | [.token (.delim ':'), .token (.ident n), .token (.blank _), .token (.ident m)] =>
    if lower n.value = "local" ∨ lower n.value = "global" then
      some (words (":" ++ Name.print n.value ++ " " ++ Name.print m.value))
    else none
  | _ => none

/-- An address: a string, a plain address or a function around a string. -/
def address : Part → Option String
  | .token (.string _ w) => some w
  | .token (.url v _) => some (Value.addressText v)
  | .function n args =>
    if Value.isAddressName n.value then (Value.ofFunction n args).map Value.text else none
  | _ => none

/-- The media queries behind other words, if there are any. -/
def mediaTail (ps : List Part) : Option (List Piece) :=
  match Part.trim ps with
  | [] => some []
  | ps => do return .text " " :: (← Query.mediaList ps)

def importSupports (ps : List Part) : Option (List Piece) :=
  match Part.trimLeft ps with
  | .function n args :: rest =>
    if lower n.value = "supports" then do
      let inner := match Declaration.ofParts args with
        | some d => some [Piece.text d.text]
        | none => Query.supports args
      return .text (" " ++ Name.print n.value ++ "(") :: (← inner) ++ .text ")" ::
        (← mediaTail rest)
    else none
  | ps => mediaTail ps

def importLayer (ps : List Part) : Option (List Piece) :=
  match Part.trimLeft ps with
  | .token (.ident n) :: rest =>
    if lower n.value = "layer" then do
      return .text (" " ++ Name.print n.value) :: (← importSupports rest)
    else importSupports ps
  | .function n args :: rest =>
    if lower n.value = "layer" then do
      let name ← layerName (Part.trim args)
      return .text (" " ++ Name.print n.value ++ "(" ++ name ++ ")") :: (← importSupports rest)
    else importSupports ps
  | ps => importSupports ps

def importOf (ps : List Part) : Option Prelude :=
  match Part.trim ps with
  | p :: rest => do return known (.text (← address p) :: (← importLayer rest))
  | [] => none

def namespaceOf (ps : List Part) : Option Prelude :=
  match Part.words ps with
  | [.token (.ident n), p] => do return words (Name.print n.value ++ " " ++ (← address p))
  | [p] => do return words (← address p)
  | _ => none

/-- A page name and the kinds of page, written together. -/
def pageSelector : List Part → Option String
  | .token (.ident n) :: rest => do return Name.print n.value ++ (← pseudos rest)
  | ps => if ps.isEmpty then none else pseudos ps
where
  pseudos : List Part → Option String
    | [] => some ""
    | .token (.delim ':') :: .token (.ident n) :: rest => do
      if lower n.value ∈ ["left", "right", "first", "blank"] then
        return ":" ++ Name.print n.value ++ (← pseudos rest)
      else none
    | _ => none

def pageOf (ps : List Part) : Option Prelude :=
  match Part.trim ps with
  | [] => some absent
  | ps => do
    return words (", ".intercalate
      (← (Part.splitCommas ps).mapM fun ps => pageSelector (Part.trim ps)))

/-- Names of layers; only a layer with a block may have no name. -/
def layerOf (hasBlock : Bool) (ps : List Part) : Option Prelude :=
  match Part.trim ps with
  | [] => if hasBlock then some absent else none
  | ps => do return words (← layerNames ps)

def mediaOf (ps : List Part) : Option Prelude :=
  match Part.trim ps with
  | [] => some absent
  | ps => do return known (← Query.mediaList ps)

def scopeOf (ps : List Part) : Option Prelude :=
  match Part.words ps with
  | [] => some (known [])
  | [.block .paren start] => do return known (limit (← ComplexSelector.listOfParts start))
  | [middle, .block .paren stop] =>
    if middle.isWord "to" then do
      return known (.text "to " :: limit (← ComplexSelector.listOfParts stop))
    else none
  | [.block .paren start, middle, .block .paren stop] =>
    if middle.isWord "to" then do
      return known (limit (← ComplexSelector.listOfParts start) ++ .text " to " ::
        limit (← ComplexSelector.listOfParts stop))
    else none
  | _ => none
where
  limit (cs : List ComplexSelector) : List Piece := Query.bracketed (Piece.selectors cs)

def customMediaOf (ps : List Part) : Option Prelude :=
  match Part.trim ps with
  | .token (.ident n) :: rest =>
    if Name.isCustom n.value then do
      return known (.text (Name.printAny n.value ++ " ") :: (← Query.mediaList rest))
    else none
  | _ => none

def documentTerm (p : Part) : Option String :=
  match address p with
  | some s => some s
  | none =>
    match p with
    | .function n args => (Value.ofFunction n args).map Value.text
    | _ => none

def documentOf (ps : List Part) : Option Prelude := do
  return words (", ".intercalate (← (Part.splitCommas ps).mapM fun ps =>
    match Part.words ps with
    | [p] => documentTerm p
    | _ => none))

/-- A font family: a string or a row of names. -/
def family (ps : List Part) : Option String :=
  match Part.words ps with
  | [] => none
  | [.token (.string _ w)] => some w
  | ps => do return " ".intercalate (← ps.mapM fun p => p.ident?.map Name.print)

def familiesOf (ps : List Part) : Option Prelude := do
  return words (", ".intercalate (← (Part.splitCommas ps).mapM family))

def charsetOf (ps : List Part) : Option Prelude :=
  match Part.trim ps with
  | [.token (.string _ w)] => some (words w)
  | _ => none

/-- A prelude that no grammar admits. -/
def refused (_ : List Part) : Option Prelude := none

def noneOf (ps : List Part) : Option Prelude :=
  match Part.trim ps with
  | [] => some absent
  | _ => none

end Prelude

end ScopedStyles.Css
