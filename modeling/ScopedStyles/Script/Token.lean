import ScopedStyles.Script.Character
import ScopedStyles.Script.Node

/-!
# Tokens of scripts

`Token.scan` reads the token at the start of a text. What a slash, a right angle or a brace starts
depends on the grammar around it, so regular expressions, template chunks and markup have scanners
of their own, which the parser calls where it expects them.
-/

namespace ScopedStyles.Script

/-- A text that is read on, with the position reached. -/
structure Cursor where
  rest : List Char
  pos : Nat
deriving Repr, Inhabited

namespace Cursor

def next (c : Cursor) (ch : Char) (rest : List Char) : Cursor := ⟨rest, c.pos + ch.utf8Size⟩

/-- The position behind some characters that were read. -/
def skip (c : Cursor) (read : List Char) (rest : List Char) : Cursor :=
  ⟨rest, read.foldl (fun n ch => n + ch.utf8Size) c.pos⟩

end Cursor

inductive Token where
  | eof
  | name (value : String)
  | privateName (value : String)
  | markupName (value : String)
  | markupEnd
  | sign (text : String)
  | number (written : String) (legacy : Bool)
  | bigint (written : String)
  | string (value : Option String) (written : String) (legacy : Bool)
  | regex (written : String)
deriving DecidableEq, Repr, Inhabited

namespace Token

/-- Words that name nothing, wherever they stand. -/
def reservedWords : List String :=
  ["break", "case", "catch", "class", "const", "continue", "debugger", "default", "delete", "do",
    "else", "enum", "export", "extends", "false", "finally", "for", "function", "if", "import", "in",
    "instanceof", "new", "null", "return", "super", "switch", "this", "throw", "true", "try",
    "typeof", "var", "void", "while", "with"]

/-- Words that are reserved in strict code only. -/
def strictWords : List String :=
  ["implements", "interface", "let", "package", "private", "protected", "public", "static", "yield"]

/-- Words that mean something in some places and may name things in others. -/
def contextualWords : List String :=
  ["abstract", "accessor", "any", "as", "assert", "asserts", "async", "bigint", "boolean",
    "constructor", "declare", "enum", "from", "get", "global", "implements", "infer", "interface",
    "intrinsic", "is", "keyof", "meta", "namespace", "never", "number", "object", "of", "out",
    "override", "package", "private", "protected", "public", "readonly", "satisfies", "set",
    "static", "string", "symbol", "target", "type", "undefined", "unique", "unknown", "using"]

/-- Words that are never names of variables for the scanner. -/
def keywords : List String :=
  reservedWords.filter (· ≠ "enum") ++ ["await", "let", "yield"]

def isHexDigit (c : Char) : Bool :=
  c.isDigit || ('a' ≤ c && c ≤ 'f') || ('A' ≤ c && c ≤ 'F')

def hexValue (c : Char) : Nat :=
  if c.isDigit then c.toNat - 48 else if c.toNat < 97 then c.toNat - 55 else c.toNat - 87

def hexNumber (cs : List Char) : Nat := cs.foldl (fun n c => 16 * n + hexValue c) 0

/-- A code point behind `\u`, the characters it takes and the rest. -/
def codePoint? : List Char → Option (Nat × List Char × List Char)
  | '{' :: cs =>
    let (ds, rest) := cs.span isHexDigit
    match rest with
    | '}' :: rest =>
      if ds.isEmpty || 0x10FFFF < hexNumber ds then none
      else some (hexNumber ds, '{' :: ds ++ ['}'], rest)
    | _ => none
  | a :: b :: c :: d :: rest =>
    if [a, b, c, d].all isHexDigit then some (hexNumber [a, b, c, d], [a, b, c, d], rest) else none
  | _ => none

/-! ## Names -/

/-- Characters of a name: its value, what was written, whether an escape occurs, and the rest. -/
def scanNameChars : Nat → Bool → List Char → Option (List Char × List Char × Bool × List Char)
  | 0, _, cs => some ([], [], false, cs)
  | fuel + 1, first, '\\' :: 'u' :: cs => do
    let (n, ds, rest) ← codePoint? cs
    let c := Char.ofNat n
    if if first then isIdentStart c else isIdentPart c then
      let (value, written, _, rest) ← scanNameChars fuel false rest
      return (c :: value, '\\' :: 'u' :: ds ++ written, true, rest)
    else none
  | fuel + 1, first, c :: cs =>
    if if first then isIdentStart c else isIdentPart c then do
      let (value, written, escaped, rest) ← scanNameChars fuel false cs
      return (c :: value, c :: written, escaped, rest)
    else some ([], [], false, c :: cs)
  | _, _, [] => some ([], [], false, [])

/-- Words that no escape may stand in. -/
def mustBePlain (word : String) : Bool :=
  reservedWords.contains word && !(["true", "false", "null"].contains word)

def startsName : List Char → Bool
  | '\\' :: 'u' :: _ => true
  | c :: _ => isIdentStart c
  | [] => false

/-! ## Strings -/

/-- A code unit or code point of a string's value. -/
abbrev Units := List Nat

/-- Joins surrogates that stand side by side. -/
def joinSurrogates : Units → Units
  | hi :: lo :: rest =>
    if 0xD800 ≤ hi && hi < 0xDC00 && 0xDC00 ≤ lo && lo < 0xE000 then
      (0x10000 + (hi - 0xD800) * 0x400 + (lo - 0xDC00)) :: joinSurrogates rest
    else hi :: joinSurrogates (lo :: rest)
  | us => us

/-- The text of a value, unless it holds half a surrogate pair. -/
def textOf? (us : Units) : Option String :=
  let us := joinSurrogates us
  if us.any fun u => 0xD800 ≤ u && u < 0xE000 then none
  else some (String.ofList (us.map Char.ofNat))

def isOctal (c : Char) : Bool := '0' ≤ c && c ≤ '7'

/-- An escape behind its backslash: the value, the characters, whether it is of the old octal form,
and the rest. -/
def escape? : List Char → Option (Units × List Char × Bool × List Char)
  | [] => none
  | 'u' :: cs => do
    let (n, ds, rest) ← codePoint? cs
    return ([n], 'u' :: ds, false, rest)
  | 'x' :: a :: b :: rest =>
    if isHexDigit a && isHexDigit b then some ([hexNumber [a, b]], ['x', a, b], false, rest) else none
  | 'x' :: _ => none
  | '\r' :: '\n' :: rest => some ([], ['\r', '\n'], false, rest)
  | c :: rest =>
    if isLineEnd c then some ([], [c], false, rest)
    else if isOctal c then
      let limit := if c.toNat ≤ 51 then 2 else 1
      let more := (rest.take limit).takeWhile isOctal
      let value := (c :: more).foldl (fun n d => 8 * n + (d.toNat - 48)) 0
      some ([value], c :: more, !(c = '0' && more.isEmpty), rest.drop more.length)
    else
      let value := match c with
        | 'n' => 10 | 't' => 9 | 'r' => 13 | 'b' => 8 | 'f' => 12 | 'v' => 11
        | c => c.toNat
      some ([value], [c], false, rest)

/-- A string behind its opening quote, up to and with the closing one. -/
def scanStringChars (quote : Char) : Nat → List Char → Option (Units × List Char × Bool × List Char)
  | 0, _ => none
  | _ + 1, [] => none
  | fuel + 1, c :: cs =>
    if c = quote then some ([], [c], false, cs)
    else if c = '\n' || c = '\r' then none
    else if c = '\\' then do
      let (us, text, old, rest) ← escape? cs
      let (value, written, old', rest) ← scanStringChars quote fuel rest
      return (us ++ value, '\\' :: text ++ written, old || old', rest)
    else do
      let (value, written, old, rest) ← scanStringChars quote fuel cs
      return (c.toNat :: value, c :: written, old, rest)

/-! ## Numbers -/

/-- Digits with single underscores between them. -/
def digitsOk (isDigit : Char → Bool) : List Char → Bool
  | [] => false
  | [d] => isDigit d
  | '_' :: _ => false
  | d :: '_' :: rest => isDigit d && digitsOk isDigit rest
  | d :: rest => isDigit d && digitsOk isDigit rest

def takeDigits (isDigit : Char → Bool) (cs : List Char) : List Char × List Char :=
  cs.span fun c => isDigit c || c = '_'

def isBinary (c : Char) : Bool := c = '0' || c = '1'

/-- A number must not run into a name. -/
def endsWell (rest : List Char) : Bool := !startsName rest && !(rest.head?.any Char.isDigit)

def scanRadix (isDigit : Char → Bool) (mark : Char) (cs : List Char) :
    Option (Token × List Char × List Char) :=
  let (ds, rest) := takeDigits isDigit cs
  let written := '0' :: mark :: ds
  if !digitsOk isDigit ds then none
  else match rest with
    | 'n' :: rest =>
      if endsWell rest then some (bigint (String.ofList (written ++ ['n'])), written ++ ['n'], rest)
      else none
    | rest =>
      if endsWell rest then some (number (String.ofList written) false, written, rest) else none

def scanExponent (cs : List Char) : Option (List Char × List Char) :=
  match cs with
  | e :: rest =>
    if e = 'e' || e = 'E' then
      let (plus, rest) := match rest with
        | '+' :: r => (['+'], r)
        | '-' :: r => (['-'], r)
        | r => ([], r)
      let (ds, rest) := takeDigits Char.isDigit rest
      if digitsOk Char.isDigit ds then some (e :: plus ++ ds, rest) else none
    else some ([], cs)
  | [] => some ([], [])

def scanDecimal (cs : List Char) : Option (Token × List Char × List Char) := do
  let (whole, rest) := takeDigits Char.isDigit cs
  let old := whole.head? = some '0' && 1 < whole.length
  if !whole.isEmpty && !digitsOk Char.isDigit whole then none
  else match rest with
    | 'n' :: rest =>
      if old || whole.isEmpty || !endsWell rest then none
      else some (bigint (String.ofList (whole ++ ['n'])), whole ++ ['n'], rest)
    | rest => do
      let isOld := old && whole.all isOctal
      let (fraction, rest) := match rest with
        | '.' :: r =>
          if isOld then ([], rest)
          else
            let (ds, r) := takeDigits Char.isDigit r
            ('.' :: ds, r)
        | r => ([], r)
      let (exponent, rest) ← if isOld then some ([], rest) else scanExponent rest
      let fractionOk := fraction.length ≤ 1 || digitsOk Char.isDigit (fraction.drop 1)
      let written := whole ++ fraction ++ exponent
      if fractionOk && endsWell rest then
        return (number (String.ofList written) old, written, rest)
      else none

def scanNumber : List Char → Option (Token × List Char × List Char)
  | '0' :: m :: cs =>
    if m = 'x' || m = 'X' then scanRadix isHexDigit m cs
    else if m = 'o' || m = 'O' then scanRadix isOctal m cs
    else if m = 'b' || m = 'B' then scanRadix isBinary m cs
    else scanDecimal ('0' :: m :: cs)
  | cs => scanDecimal cs

/-! ## Signs -/

/-- Signs of more than one character, longer ones before their beginnings. A right angle is always
a sign of its own. -/
def longSigns : List String :=
  ["...", "===", "!==", "**=", "<<=", "&&=", "||=", "??=", "=>", "==", "!=", "<=", "<<", "&&", "||",
    "??", "?.", "++", "--", "**", "+=", "-=", "*=", "/=", "%=", "&=", "|=", "^="]

def shortSigns : List Char :=
  ['\x7b', '\x7d', '(', ')', '[', ']', ';', ',', '<', '>', '+', '-', '*', '/', '%', '&', '|', '^',
    '!', '~', '?', ':', '=', '.', '@', '#', '`']

def scanSign (cs : List Char) : Option (String × List Char) :=
  match longSigns.find? fun s => s.toList.isPrefixOf cs with
  | some s =>
    let rest := cs.drop s.length
    if s = "?." && (rest.head?.any Char.isDigit) then some ("?", cs.drop 1) else some (s, rest)
  | none =>
    match cs with
    | c :: rest => if shortSigns.contains c then some (c.toString, rest) else none
    | [] => none

/-- The sign that right angles and an equals sign make together in an expression. -/
def angleSign (cs : List Char) : Option (String × List Char) :=
  match [">>>=", ">>>", ">>=", ">>", ">="].find? fun s => s.toList.isPrefixOf cs with
  | some s => some (s, cs.drop s.length)
  | none => if cs.head? = some '>' then some (">", cs.drop 1) else none

/-- Whether a block comment right behind the token belongs to it. -/
def trails : Token → Bool
  | name w => !keywords.contains w
  | privateName _ | number .. | bigint _ | string .. | regex _ => true
  | sign s => s = ";" || s = "\x7b" || s = "\x7d"
  | markupName _ | markupEnd | eof => false

/-- Whether the token is an operator between two operands; no line comment belongs to it. -/
def isOperator : Token → Bool
  | sign s =>
    ["+", "-", "*", "/", "%", "**", "<", ">", "<=", ">=", "==", "!=", "===", "!==", "&&", "||", "??",
      "&", "|", "^", "<<", ">>", ">>>"].contains s
  | _ => false

/-- The token at the start of a text. -/
def scan (c : Cursor) : Option (Token × Cursor) :=
  match c.rest with
  | [] => some (eof, c)
  | ch :: rest =>
    if startsName c.rest then do
      let (value, written, escaped, rest) ← scanNameChars (c.rest.length) true c.rest
      let word := String.ofList value
      if escaped && mustBePlain word then none else some (name word, c.skip written rest)
    else if ch = '"' || ch = '\'' then do
      let (value, written, old, rest) ← scanStringChars ch (rest.length + 1) rest
      let written := ch :: written
      return (string (textOf? value) (String.ofList written) old, c.skip written rest)
    else if ch.isDigit || (ch = '.' && rest.head?.any Char.isDigit) then do
      let (t, written, rest) ← scanNumber c.rest
      return (t, c.skip written rest)
    else if ch = '#' && startsName rest then do
      let (value, written, _, rest) ← scanNameChars rest.length true rest
      return (privateName (String.ofList value), c.skip (ch :: written) rest)
    else do
      let (s, rest) ← scanSign c.rest
      return (sign s, c.skip s.toList rest)

/-! ## Regular expressions, templates and markup -/

/-- The body of a regular expression behind its first slash, up to and with the last one. -/
def regexBody : Nat → Bool → List Char → Option (List Char × List Char)
  | 0, _, _ => none
  | _ + 1, _, [] => none
  | fuel + 1, inClass, c :: cs =>
    if isLineEnd c then none
    else if c = '\\' then
      match cs with
      | e :: rest =>
        if isLineEnd e then none
        else do
          let (body, rest) ← regexBody fuel inClass rest
          return (c :: e :: body, rest)
      | [] => none
    else if c = '/' && !inClass then some ([c], cs)
    else do
      let (body, rest) ← regexBody fuel ((inClass || c = '[') && c ≠ ']') cs
      return (c :: body, rest)

/-- Each flag stands once at most. -/
def flagsOk (flags : List Char) : Bool :=
  flags.all ("dgimsuvy".toList.contains ·) && flags.all (flags.count · = 1)

/-- A regular expression, the cursor standing at its first slash. -/
def scanRegex (c : Cursor) : Option (Token × Cursor) :=
  match c.rest with
  | '/' :: cs => do
    let (body, rest) ← regexBody (cs.length + 1) false cs
    let (flags, rest) := rest.span isIdentPart
    let written := '/' :: body ++ flags
    if flagsOk flags then some (regex (String.ofList written), c.skip written rest) else none
  | _ => none

/-- A chunk of a template: what was written, whether its escapes are well formed, whether the
template ends behind it, and the rest behind the backtick or opening brace. -/
def templateChars : Nat → List Char → Option (List Char × Bool × Bool × List Char)
  | 0, _ => none
  | _ + 1, [] => none
  | _ + 1, '`' :: cs => some ([], true, true, cs)
  | _ + 1, '$' :: '{' :: cs => some ([], true, false, cs)
  | fuel + 1, '\\' :: cs =>
    match escape? cs with
    | some (_, text, old, rest) => do
      let (written, ok, tail, rest) ← templateChars fuel rest
      return ('\\' :: text ++ written, ok && !old, tail, rest)
    | none =>
      match cs with
      | e :: rest => do
        let (written, _, tail, rest) ← templateChars fuel rest
        return ('\\' :: e :: written, false, tail, rest)
      | [] => none
  | fuel + 1, c :: cs => do
    let (written, ok, tail, rest) ← templateChars fuel cs
    return (c :: written, ok, tail, rest)

/-- The value of a chunk of a template: escapes stand for their characters, and each line end is one
character. -/
def templateUnits : Nat → List Char → Option Units
  | 0, _ => none
  | _ + 1, [] => some []
  | fuel + 1, '\\' :: cs => do
    let (us, _, _, rest) ← escape? cs
    return us ++ (← templateUnits fuel rest)
  | fuel + 1, '\r' :: '\n' :: cs => return 10 :: (← templateUnits fuel cs)
  | fuel + 1, c :: cs => return (if c = '\r' then 10 else c.toNat) :: (← templateUnits fuel cs)

def templateText? (written : String) : Option String := do
  textOf? (← templateUnits (written.length + 1) written.toList)

/-- Text between tags, up to a tag or brace; a right angle or closing brace may not stand in it. -/
def markupChars : List Char → Option (List Char × List Char)
  | [] => none
  | c :: cs =>
    if c = '<' || c = '\x7b' then some ([], c :: cs)
    else if c = '>' || c = '\x7d' then none
    else do
      let (text, rest) ← markupChars cs
      return (c :: text, rest)

end Token

end ScopedStyles.Script
