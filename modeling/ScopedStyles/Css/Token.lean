import ScopedStyles.Css.Name

/-!
# Tokens and parts of style text

`Token.scan` cuts a text into tokens, leaving out comments. `Part.ofTokens` matches the brackets,
so that a part is a token, a function with its arguments or a block with its content; a bracket that
closes nothing is a token like others. Both fail on a text that is not closed. A string or address
that breaks off is a token of its own, which no grammar admits but raw text does.
-/

namespace ScopedStyles.Css

inductive Bracket where
  | paren | square | curly
deriving DecidableEq, Repr, Inhabited

namespace Bracket

def openChar : Bracket → Char
  | paren => '('
  | square => '['
  | curly => '\x7b'

def closeChar : Bracket → Char
  | paren => ')'
  | square => ']'
  | curly => '\x7d'

def ofOpen? (c : Char) : Option Bracket :=
  if c = '(' then some paren else if c = '[' then some square
  else if c = '\x7b' then some curly else none

def ofClose? (c : Char) : Option Bracket :=
  if c = ')' then some paren else if c = ']' then some square
  else if c = '\x7d' then some curly else none

end Bracket

/-- A number as written. -/
structure Numeral where
  written : String
  isInteger : Bool
deriving DecidableEq, Repr, Inhabited

inductive Token where
  | ident (name : Name)
  | functionStart (name : Name)
  | atKeyword (name : Name)
  | hash (isId : Bool) (name : Name)
  | string (value written : String)
  | url (value written : String)
  | broken (written : String)
  | number (n : Numeral)
  | percentage (n : Numeral)
  | dimension (n : Numeral) (unit : Name)
  | blank (written : String)
  | delim (c : Char)
  | open_ (b : Bracket)
  | close (b : Bracket)
  | commentOpen
  | commentClose
deriving DecidableEq, Repr, Inhabited

namespace Token

/-- The text that the token was read from. -/
def text : Token → String
  | ident n => n.written
  | functionStart n => n.written ++ "("
  | atKeyword n => "@" ++ n.written
  | hash _ n => "#" ++ n.written
  | string _ w => w
  | url _ w => w
  | broken w => w
  | number n => n.written
  | percentage n => n.written ++ "%"
  | dimension n u => n.written ++ u.written
  | blank w => w
  | delim c => c.toString
  | open_ b => b.openChar.toString
  | close b => b.closeChar.toString
  | commentOpen => "<!--"
  | commentClose => "-->"

def isBlank : Token → Bool
  | blank _ => true
  | _ => false

/-- What follows a comment, if it is closed. -/
def afterComment? : List Char → Option (List Char)
  | [] => none
  | '*' :: '/' :: cs => some cs
  | _ :: cs => afterComment? cs

/-- A string up to its closing quote: whether it is whole, its value, its text with the quote, and
the rest. A line may end in it only behind a backslash; elsewhere the string breaks off there. -/
def scanString (quote : Char) : Nat → List Char → Option (Bool × List Char × List Char × List Char)
  | 0, _ => none
  | _ + 1, [] => none
  | fuel + 1, c :: cs =>
    if c = quote then some (true, [], [c], cs)
    else if Name.isNewline c then some (false, [], [], c :: cs)
    else if c = '\\' then
      match cs with
      | [] => none
      | n :: rest =>
        if Name.isNewline n then do
          let (whole, value, written, rest) ← scanString quote fuel rest
          return (whole, value, '\\' :: n :: written, rest)
        else do
          let (e, text, rest) := Name.escaped (n :: rest)
          let (whole, value, written, rest) ← scanString quote fuel rest
          return (whole, e :: value, '\\' :: text ++ written, rest)
    else do
      let (whole, value, written, rest) ← scanString quote fuel cs
      return (whole, c :: value, c :: written, rest)

def isUnprintable (c : Char) : Bool :=
  c.toNat ≤ 8 || c.toNat = 11 || (14 ≤ c.toNat && c.toNat ≤ 31) || c.toNat = 127

/-- What is left of a broken address, up to and with its closing bracket. -/
def scanRemnants : Nat → List Char → Option (List Char × List Char)
  | 0, _ => none
  | _ + 1, [] => none
  | fuel + 1, c :: cs =>
    if c = ')' then some ([c], cs)
    else if c = '\\' && Name.canEscape cs then do
      let (_, text, rest) := Name.escaped cs
      let (written, rest) ← scanRemnants fuel rest
      return (c :: text ++ written, rest)
    else do
      let (written, rest) ← scanRemnants fuel cs
      return (c :: written, rest)

/-- The inside of an address without quotes, up to and with the closing bracket: its value if it is
whole, its text and the rest. -/
def scanAddress : Nat → List Char → Option (Option (List Char) × List Char × List Char)
  | 0, _ => none
  | _ + 1, [] => none
  | fuel + 1, c :: cs =>
    let breakOff : Unit → Option (Option (List Char) × List Char × List Char) := fun _ => do
      let (written, rest) ← scanRemnants (cs.length + 2) (c :: cs)
      return (none, written, rest)
    if c = ')' then some (some [], [c], cs)
    else if Name.isBlank c then
      match cs.dropWhile Name.isBlank with
      | ')' :: rest => some (some [], c :: cs.takeWhile Name.isBlank ++ [')'], rest)
      | _ => breakOff ()
    else if c = '"' || c = '\'' || c = '(' || isUnprintable c then breakOff ()
    else if c = '\\' then
      if Name.canEscape cs then do
        let (e, text, rest) := Name.escaped cs
        let (value, written, rest) ← scanAddress fuel rest
        return (value.map (e :: ·), c :: text ++ written, rest)
      else breakOff ()
    else do
      let (value, written, rest) ← scanAddress fuel cs
      return (value.map (c :: ·), c :: written, rest)

def takeDigits (cs : List Char) : List Char × List Char := cs.span Char.isDigit

def startsNumber : List Char → Bool
  | '+' :: '.' :: c :: _ | '-' :: '.' :: c :: _ => c.isDigit
  | '+' :: c :: _ | '-' :: c :: _ | '.' :: c :: _ => c.isDigit
  | c :: _ => c.isDigit
  | [] => false

/-- The exponent at the start of a text, if there is one. -/
def scanExponent : List Char → List Char × List Char
  | e :: s :: cs =>
    if e = 'e' || e = 'E' then
      if s.isDigit then
        let (ds, rest) := takeDigits (s :: cs)
        (e :: ds, rest)
      else match cs with
        | d :: _ =>
          if (s = '+' || s = '-') && d.isDigit then
            let (ds, rest) := takeDigits cs
            (e :: s :: ds, rest)
          else ([], e :: s :: cs)
        | [] => ([], e :: s :: cs)
    else ([], e :: s :: cs)
  | cs => ([], cs)

def scanNumeral (cs : List Char) : Numeral × List Char :=
  let (sign, cs) := match cs with
    | '+' :: r => (['+'], r)
    | '-' :: r => (['-'], r)
    | r => ([], r)
  let (whole, cs) := takeDigits cs
  let (fraction, cs) := match cs with
    | '.' :: d :: r =>
      if d.isDigit then
        let (ds, rest) := takeDigits (d :: r)
        ('.' :: ds, rest)
      else ([], cs)
    | _ => ([], cs)
  let (exponent, cs) := scanExponent cs
  (⟨String.ofList (sign ++ whole ++ fraction ++ exponent), fraction.isEmpty && exponent.isEmpty⟩, cs)

def scanNumber (cs : List Char) : Token × List Char :=
  let (n, rest) := scanNumeral cs
  if Name.startsAt rest then
    let (unit, rest) := Name.scan rest
    (dimension n unit, rest)
  else match rest with
    | '%' :: rest => (percentage n, rest)
    | rest => (number n, rest)

/-- A name, or what a bracket behind it makes of it. -/
def scanNamed (cs : List Char) : Option (Token × List Char) :=
  let (name, rest) := Name.scan cs
  match rest with
  | '(' :: inner =>
    if lower name.value = "url" then
      match inner.dropWhile Name.isBlank with
      | '"' :: _ | '\'' :: _ => some (functionStart name, inner)
      | address => do
        let (value, written, rest) ← scanAddress (address.length + 1) address
        let lead := String.ofList (inner.takeWhile Name.isBlank)
        let written := name.written ++ "(" ++ lead ++ String.ofList written
        return (match value with
          | some v => url (String.ofList v) written
          | none => broken written, rest)
    else some (functionStart name, inner)
  | rest => some (ident name, rest)

/-- The token at the start of a text that is not empty and starts with no comment. -/
def scanOne (c : Char) (cs : List Char) : Option (Token × List Char) :=
  if Name.isBlank c then
    some (blank (String.ofList (c :: cs.takeWhile Name.isBlank)), cs.dropWhile Name.isBlank)
  else if c = '"' || c = '\'' then do
    let (whole, value, written, rest) ← scanString c (cs.length + 1) cs
    let written := String.ofList (c :: written)
    return (if whole then string (String.ofList value) written else broken written, rest)
  else if startsNumber (c :: cs) then some (scanNumber (c :: cs))
  else if c = '-' && ['-', '>'].isPrefixOf cs then some (commentClose, cs.drop 2)
  else if Name.startsAt (c :: cs) then scanNamed (c :: cs)
  else if c = '<' && ['!', '-', '-'].isPrefixOf cs then some (commentOpen, cs.drop 3)
  else if c = '@' && Name.startsAt cs then
    let (name, rest) := Name.scan cs
    some (atKeyword name, rest)
  else if c = '#' then
    match cs with
    | [] => some (delim c, cs)
    | d :: rest =>
      if Name.isInner d || (d = '\\' && Name.canEscape rest) then
        let (name, rest) := Name.scan cs
        some (hash (Name.startsAt cs) name, rest)
      else some (delim c, cs)
  else match Bracket.ofOpen? c, Bracket.ofClose? c with
    | some b, _ => some (open_ b, cs)
    | _, some b => some (close b, cs)
    | _, _ => some (delim c, cs)

def scanFrom : Nat → List Char → Option (List Token)
  | _, [] => some []
  | 0, _ => none
  | fuel + 1, '/' :: '*' :: cs => do scanFrom fuel (← afterComment? cs)
  | fuel + 1, c :: cs => do
    let (t, rest) ← scanOne c cs
    return t :: (← scanFrom fuel rest)

def scan (cs : List Char) : Option (List Token) := scanFrom cs.length cs

end Token

inductive Part where
  | token (t : Token)
  | function (name : Name) (args : List Part)
  | block (b : Bracket) (inner : List Part)
deriving Repr, Inhabited

namespace Part

mutual

/-- The text that a part was read from. -/
def text : Part → String
  | token t => t.text
  | function n args => n.written ++ "(" ++ textOf args ++ ")"
  | block b inner => b.openChar.toString ++ textOf inner ++ b.closeChar.toString

def textOf : List Part → String
  | [] => ""
  | p :: ps => p.text ++ textOf ps

end

/-- A bracket that is still open, with the parts before it, the last one first. -/
structure Frame where
  name? : Option Name
  bracket : Bracket
  before : List Part

/-- Puts a closed bracket behind the parts before it. -/
def Frame.close (f : Frame) (inner : List Part) : List Part :=
  match f.name? with
  | some n => function n inner :: f.before
  | none => block f.bracket inner :: f.before

/-- Reads tokens with the open brackets, the innermost first, and the parts of the innermost one,
the last one first. A bracket that does not close the innermost one closes nothing. -/
def ofTokensFrom : List Frame → List Part → List Token → Option (List Part)
  | [], parts, [] => some parts.reverse
  | _ :: _, _, [] => none
  | frames, parts, .functionStart n :: ts => ofTokensFrom (⟨some n, .paren, parts⟩ :: frames) [] ts
  | frames, parts, .open_ b :: ts => ofTokensFrom (⟨none, b, parts⟩ :: frames) [] ts
  | f :: frames, parts, .close b :: ts =>
    if f.bracket = b then ofTokensFrom frames (f.close parts.reverse) ts
    else ofTokensFrom (f :: frames) (token (.close b) :: parts) ts
  | frames, parts, t :: ts => ofTokensFrom frames (token t :: parts) ts

def ofTokens (ts : List Token) : Option (List Part) := ofTokensFrom [] [] ts

def scan (text : String) : Option (List Part) := do ofTokens (← Token.scan text.toList)

mutual

/-- How deep brackets are nested. -/
def depth : Part → Nat
  | token _ => 0
  | function _ args => depthOf args + 1
  | block _ inner => depthOf inner + 1

def depthOf : List Part → Nat
  | [] => 0
  | p :: ps => max p.depth (depthOf ps)

end

def isBlank : Part → Bool
  | token t => t.isBlank
  | _ => false

def trimLeft (ps : List Part) : List Part := ps.dropWhile isBlank

/-- Drops blanks at both ends. -/
def trim (ps : List Part) : List Part := (trimLeft (trimLeft ps).reverse).reverse

/-- The parts without the blanks between them. -/
def words (ps : List Part) : List Part := ps.filter (!·.isBlank)

/-- Cuts at each part that satisfies the test, which is left out. -/
def splitAt (test : Part → Bool) : List Part → List (List Part)
  | [] => [[]]
  | p :: ps =>
    if test p then [] :: splitAt test ps
    else match splitAt test ps with
      | [] => [[p]]
      | piece :: rest => (p :: piece) :: rest

def isDelim (c : Char) : Part → Bool
  | token (.delim d) => d = c
  | _ => false

def splitCommas (ps : List Part) : List (List Part) := splitAt (isDelim ',') ps

/-- The name of a part that is a plain name. -/
def ident? : Part → Option String
  | token (.ident n) => some n.value
  | _ => none

/-- Whether a part is the given word in any case. -/
def isWord (word : String) (p : Part) : Bool :=
  match p.ident? with
  | some s => lower s = word
  | none => false

end Part

end ScopedStyles.Css
