import ScopedStyles.Css.Token

/-!
# Values of declarations

A value is a row of words, commas, slashes, functions and blocks. `Value.rowText` writes it with
one blank between two neighbours, none before a comma or slash. Sums and products keep a blank on
both sides of their signs. A function whose arguments are no row is kept as written, unless it is
one whose arguments have a form of their own.
-/

namespace ScopedStyles.Css

inductive Value where
  | word (text : String)
  | sign (c : Char)
  | comma
  | slash
  | function (name : String) (args : List Value)
  | group (inner : List Value)
  | block (b : Bracket) (inner : List Value)
deriving Repr, Inhabited

namespace Value

/-- What stands between two neighbours. -/
def between : Value → Value → String
  | _, comma | _, slash => ""
  | _, _ => " "

/-- What stands between two members of a block. -/
def gapIn : Bracket → String
  | .square => " "
  | _ => ""

mutual

def text : Value → String
  | word s => s
  | sign c => c.toString
  | comma => ","
  | slash => "/"
  | function n args => n ++ "(" ++ rowText args ++ ")"
  | group inner => "(" ++ rowText inner ++ ")"
  | block b inner => b.openChar.toString ++ blockText b inner ++ b.closeChar.toString

def rowText : List Value → String
  | [] => ""
  | [v] => v.text
  | v :: w :: rest => v.text ++ between v w ++ rowText (w :: rest)

def blockText (b : Bracket) : List Value → String
  | [] => ""
  | [v] => v.text
  | v :: w :: rest => v.text ++ gapIn b ++ blockText b (w :: rest)

end

/-! ## Numbers -/

/-- The whole number that a double of 53 binary digits holds in place of `n`, a tie going to the
even neighbour. -/
def nearestDouble (n : Nat) : Nat :=
  let extra := Nat.log2 n - 52
  let unit := Nat.shiftLeft 1 extra
  let down := n / unit
  let rest := n % unit
  if 2 * rest < unit ∨ (2 * rest = unit ∧ down % 2 = 0) then down * unit else (down + 1) * unit

/-- A whole number keeps the value of the nearest double within 64 bits and loses signs and zeros
that do not matter. -/
def wholeText (written : String) : String :=
  let cs := written.toList
  let (negative, ds) := match cs with
    | '-' :: ds => (true, ds)
    | '+' :: ds => (false, ds)
    | ds => (false, ds)
  let n := nearestDouble (ds.foldl (fun n d => 10 * n + (d.toNat - 48)) 0)
  if negative then (if n = 0 then "0" else "-" ++ toString (min n 9223372036854775808))
  else toString (min n 9223372036854775807)

/-- Units with a meaning. Others are written in lower case. -/
def isKnownUnit (unit : String) : Bool :=
  lower unit ∈ ["em", "rem", "ex", "rex", "cap", "rcap", "ch", "rch", "ic", "ric", "lh", "rlh",
    "vw", "svw", "lvw", "dvw", "vh", "svh", "lvh", "dvh", "vi", "svi", "lvi", "dvi", "vb", "svb",
    "lvb", "dvb", "vmin", "svmin", "lvmin", "dvmin", "vmax", "svmax", "lvmax", "dvmax", "cqw",
    "cqh", "cqi", "cqb", "cqmin", "cqmax", "cm", "mm", "q", "in", "pc", "pt", "px", "deg", "grad",
    "rad", "turn", "s", "ms", "hz", "khz", "dpi", "dpcm", "dppx", "x", "fr"]

/-- A digit behind an `e` would make an exponent of both and stands as a code point. -/
def unitText (unit : String) : String :=
  match (Name.print (if isKnownUnit unit then unit else lower unit)).toList with
  | e :: c :: rest =>
    if (e = 'e' || e = 'E') && c.isDigit then
      String.ofList (e :: '\\' :: Nat.toDigits 16 c.toNat ++ rest)
    else String.ofList (e :: c :: rest)
  | cs => String.ofList cs

def dimensionText (n : Numeral) (unit : Name) : String := n.written ++ unitText unit.value

/-! ## Addresses -/

/-- A character of an address that is not in quotes. -/
def addressChar (c : Char) : List Char :=
  if c = '"' || c = '\'' || c = '(' || c = ')' || c = '\\' || Name.isBlank c then ['\\', c]
  else if Token.isUnprintable c then Name.codePoint c
  else [c]

def addressText (value : String) : String :=
  "url(" ++ String.ofList (value.toList.flatMap addressChar) ++ ")"

def isAddressName (name : String) : Bool := lower name = "url" || lower name = "src"

/-! ## Character ranges -/

def isRangeChar (c : Char) : Bool := Name.isHexDigit c || c = '?'

/-- Up to six digits or question marks, or two such groups with a hyphen between them. -/
def isRange (cs : List Char) : Bool :=
  match cs.span (· ≠ '-') with
  | (lo, []) => groupOk lo
  | (lo, _ :: hi) => groupOk lo && groupOk hi && lo.all Name.isHexDigit && hi.all Name.isHexDigit
where
  groupOk (g : List Char) : Bool := !g.isEmpty && g.length ≤ 6 && g.all isRangeChar

/-- The parts that directly follow a `U` and may belong to a character range. -/
def rangeParts : List Part → List Part × List Part
  | .token t :: rest =>
    let belongs := match t with
      | .number _ | .dimension .. | .ident _ => true
      | .delim c => c = '+' || c = '?'
      | _ => false
    if belongs then
      let (mine, others) := rangeParts rest
      (.token t :: mine, others)
    else ([], .token t :: rest)
  | ps => ([], ps)

/-! ## Sums -/

/-- Signs alternate with operands. -/
def sumRow (operand : Part → Option Value) : List Part → Option (List Value)
  | [] => none
  | [p] => do return [← operand p]
  | p :: .token (.delim c) :: rest => do
    if c = '+' || c = '-' || c = '*' || c = '/' then
      return (← operand p) :: .sign c :: (← sumRow operand rest)
    else none
  | _ => none

/-- Several rows with commas between them. -/
def joinCommas : List (List Value) → List Value
  | [] => []
  | [row] => row
  | row :: rest => row ++ .comma :: joinCommas rest

def isConstant (name : String) : Bool :=
  lower name ∈ ["e", "pi", "infinity", "-infinity", "nan"]

def isStrategy (p : Part) : Bool :=
  p.isWord "nearest" || p.isWord "up" || p.isWord "down" || p.isWord "to-zero"

/-- How many sums a mathematical function takes at least and at most. -/
def arity? (name : String) : Option (Nat × Option Nat) :=
  if name ∈ ["calc", "-moz-calc", "-webkit-calc", "sin", "cos", "tan", "asin", "acos", "atan",
    "sqrt", "exp", "abs", "sign"] then some (1, some 1)
  else if name ∈ ["min", "max", "hypot"] then some (1, none)
  else if name = "clamp" then some (3, some 3)
  else if name ∈ ["mod", "rem", "atan2", "pow", "round"] then some (2, some 2)
  else if name = "log" then some (1, some 2)
  else none

def isMath (name : String) : Bool := (arity? (lower name)).isSome

/-- The sums that a mathematical function takes; what stands behind the last one it can take is
left out. -/
def sumsOf (sum : List Part → Option (List Value)) (least : Nat) (most : Option Nat)
    (pieces : List (List Part)) : Option (List (List Value)) :=
  let pieces := match most with
    | some n => pieces.take n
    | none => pieces
  if pieces.length < least then none else pieces.mapM sum

/-- The arguments of a mathematical function. Rounding may be told how in a word of its own. -/
def mathArgs (sum : List Part → Option (List Value)) (name : String) (args : List Part) :
    Option (List Value) := do
  let (least, most) ← arity? name
  let pieces := Part.splitCommas args
  match name == "round", pieces.map Part.trim with
  | true, [p] :: rest =>
    if isStrategy p then
      return joinCommas ([.word (Name.print (p.ident?.getD ""))] :: (← sumsOf sum least most rest))
    else return joinCommas (← sumsOf sum least most pieces)
  | _, _ => return joinCommas (← sumsOf sum least most pieces)

/-! ## Colors -/

/-- How many components a color function takes, and whether commas may stand between them. -/
def components? (name : String) : Option (Nat × Bool) :=
  if name ∈ ["rgb", "rgba", "hsl", "hsla"] then some (3, true)
  else if name ∈ ["hwb", "lab", "lch", "oklab", "oklch"] then some (3, false)
  else if name = "device-cmyk" then some (4, true)
  else none

/-- One component of a color: a number of some kind, a function or the word `none`. -/
def component (call : Name → List Part → Option Value) : Part → Option Value
  | .token (.number n) => some (.word (if n.isInteger then wholeText n.written else n.written))
  | .token (.percentage n) => some (.word (n.written ++ "%"))
  | .token (.dimension n u) => some (.word (dimensionText n u))
  | .token (.ident n) => if lower n.value = "none" then some (.word (Name.print n.value)) else none
  | .function n args => call n args
  | _ => none

/-- Components one behind the other, perhaps a slash before the last. -/
def plainComponents (call : Name → List Part → Option Value) : Nat → List Part → Option (List Value)
  | 0, [] => some []
  | 0, [.token (.delim '/'), p] => do return [.slash, ← component call p]
  | k + 1, p :: rest => do return (← component call p) :: (← plainComponents call k rest)
  | _, _ => none

/-- Components with commas between them, one more than `k`. -/
def listedComponents (call : Name → List Part → Option Value) : Nat → List Part → Option (List Value)
  | 0, [p] => do return [← component call p]
  | 0, [p, .token (.delim ','), q] => do return [← component call p, .comma, ← component call q]
  | k + 1, p :: .token (.delim ',') :: rest => do
    return (← component call p) :: .comma :: (← listedComponents call k rest)
  | _, _ => none

/-- Functions that stand for any number of components. -/
def isSubstitution : Part → Bool
  | .function n _ => lower n.value ∈ ["var", "env", "constant"]
  | _ => false

def colorArgs (call : Name → List Part → Option Value) (row : List Part → Option (List Value))
    (count : Nat) (listed : Bool) (args : List Part) : Option (List Value) :=
  let ps := Part.words args
  if ps.any isSubstitution then row args
  else
    match listed, ps with
    | true, _ :: .token (.delim ',') :: _ => listedComponents call (count - 1) ps
    | _, _ => plainComponents call count ps

/-! ## Reading -/

/-- The string and the modifiers of an address. -/
def addressArgs (call : Name → List Part → Option Value) : List Part → Option (List Value)
  | [] => some []
  | .token (.string _ w) :: rest => do return .word w :: (← modifiers rest)
  | ps => modifiers ps
where
  modifiers : List Part → Option (List Value)
    | [] => some []
    | .token (.ident n) :: rest => do return .word (Name.printAny n.value) :: (← modifiers rest)
    | .function n args :: rest => do return (← call n args) :: (← modifiers rest)
    | _ => none

/-- A function. `row` reads what brackets hold, `sum` sums, and `call` functions inside. -/
def callStep (row sum : List Part → Option (List Value)) (call : Name → List Part → Option Value)
    (name : Name) (args : List Part) : Option Value :=
  let raw := Value.word (Name.printAny name.value ++ "(" ++ Part.textOf args ++ ")")
  if Name.isCustom name.value then some raw
  else if isAddressName name.value then do
    return .function (lower name.value) (← addressArgs call (Part.words args))
  else if isMath name.value then do
    return .function (Name.print name.value) (← mathArgs sum (lower name.value) args)
  else match components? (lower name.value) with
    | some (count, listed) => do
      return .function (Name.print name.value) (← colorArgs call row count listed args)
    | none =>
      match row args with
      | some vs => some (.function (Name.print name.value) vs)
      | none => some raw

/-- One operand of a sum or product. -/
def operand (sum : List Part → Option (List Value)) (call : Name → List Part → Option Value) :
    Part → Option Value
  | .token (.number n) => some (.word n.written)
  | .token (.percentage n) => some (.word (n.written ++ "%"))
  | .token (.dimension n u) => some (.word (dimensionText n u))
  | .token (.ident n) => if isConstant n.value then some (.word (Name.print n.value)) else none
  | .function n args => call n args
  | .block .paren inner => do return .group (← sum inner)
  | _ => none

/-- One level of reading a row; `nested` reads the content of blocks. -/
def rowStep (nested : List Part → Option (List Value)) (call : Name → List Part → Option Value) :
    Nat → List Part → Option (List Value)
  | 0, _ => none
  | _ + 1, [] => some []
  | k + 1, p :: rest =>
    match p with
    | .token (.blank _) => rowStep nested call k rest
    | .token (.ident n) =>
      let plain : Unit → Option (List Value) := fun _ => do
        if n.value = "--" then none
        else return .word (Name.printAny n.value) :: (← rowStep nested call k rest)
      if lower n.value = "u" then
        let (mine, others) := rangeParts rest
        match (Part.textOf mine).toList with
        | '+' :: range =>
          if isRange range then do
            return .word ("u+" ++ String.ofList range) :: (← rowStep nested call k others)
          else none
        | _ => plain ()
      else plain ()
    | .token (.string _ w) => do return .word w :: (← rowStep nested call k rest)
    | .token (.url v _) => do return .word (addressText v) :: (← rowStep nested call k rest)
    | .token (.number n) => do
      return .word (if n.isInteger then wholeText n.written else n.written) ::
        (← rowStep nested call k rest)
    | .token (.percentage n) => do return .word (n.written ++ "%") :: (← rowStep nested call k rest)
    | .token (.dimension n u) => do return .word (dimensionText n u) :: (← rowStep nested call k rest)
    | .token (.hash _ n) =>
      if n.value.toList.all Name.isHexDigit then do
        return .word ("#" ++ n.value) :: (← rowStep nested call k rest)
      else none
    | .token (.delim ',') => do return .comma :: (← rowStep nested call k rest)
    | .token (.delim '/') => do return .slash :: (← rowStep nested call k rest)
    | .token _ => none
    | .function n args => do return (← call n args) :: (← rowStep nested call k rest)
    | .block b inner => do return .block b (← nested inner) :: (← rowStep nested call k rest)

mutual

/-- A row whose parts are nested at most `depth` deep. -/
def row : Nat → List Part → Option (List Value)
  | 0, _ => none
  | depth + 1, ps => rowStep (row depth) (call depth) (ps.length + 1) ps

/-- A sum whose parts are nested at most `depth` deep. -/
def sum : Nat → List Part → Option (List Value)
  | 0, _ => none
  | depth + 1, ps => sumRow (operand (sum depth) (call depth)) (Part.words ps)

/-- A function whose arguments are nested at most `depth` deep. -/
def call : Nat → Name → List Part → Option Value
  | 0, _, _ => none
  | depth + 1, name, args => callStep (row depth) (sum depth) (call depth) name args

end

/-- A bound for reading parts, two for each level of brackets. -/
def bound (ps : List Part) : Nat := 2 * Part.depthOf ps + 2

/-- The value that parts stand for. -/
def ofParts (ps : List Part) : Option (List Value) := row (bound ps) ps

/-- A function alone, as it stands in a condition. -/
def ofFunction (name : Name) (args : List Part) : Option Value := call (bound args + 1) name args

end Value

end ScopedStyles.Css
