/-!
# Names in style text

A name is read from text in which a backslash makes any character part of it. `Name.print` writes
a name so that it reads back: what could end it or start something else stands behind a backslash,
as itself or as a hexadecimal code point.
-/

namespace ScopedStyles.Css

/-- What was read together with the text it was read from. -/
structure Name where
  value : String
  written : String
deriving DecidableEq, Repr, Inhabited

/-- Letters of ASCII in lower case. -/
def lower (s : String) : String := String.ofList (s.toList.map Char.toLower)

namespace Name

def isNewline (c : Char) : Bool := c = '\n' || c = '\r' || c.toNat = 12

def isBlank (c : Char) : Bool := c = ' ' || c = '\t' || isNewline c

def isStart (c : Char) : Bool := c.isAlpha || c = '_' || 128 ≤ c.toNat

def isInner (c : Char) : Bool := isStart c || c.isDigit || c = '-'

def isHexDigit (c : Char) : Bool :=
  c.isDigit || ('a' ≤ c && c ≤ 'f') || ('A' ≤ c && c ≤ 'F')

def hexValue (c : Char) : Nat :=
  if c.isDigit then c.toNat - 48 else if c.toNat < 97 then c.toNat - 55 else c.toNat - 87

/-- The character of a code point; where there is none, the replacement character. -/
def charOfCode (n : Nat) : Char :=
  if n = 0 ∨ (0xD800 ≤ n ∧ n ≤ 0xDFFF) ∨ 0x10FFFF < n then Char.ofNat 0xFFFD else Char.ofNat n

/-- Up to `k` hexadecimal digits: their value, the digits, the rest. -/
def hexDigits : Nat → Nat → List Char → Nat × List Char × List Char
  | 0, value, cs => (value, [], cs)
  | _ + 1, value, [] => (value, [], [])
  | k + 1, value, c :: cs =>
    if isHexDigit c then
      let (value, digits, rest) := hexDigits k (16 * value + hexValue c) cs
      (value, c :: digits, rest)
    else (value, [], c :: cs)

/-- Whether a backslash before this text makes a character. -/
def canEscape : List Char → Bool
  | [] => false
  | c :: _ => !isNewline c

/-- The character behind a backslash, the text that it takes and the rest. A blank behind a code
point belongs to it. -/
def escaped : List Char → Char × List Char × List Char
  | [] => (Char.ofNat 0xFFFD, [], [])
  | c :: cs =>
    if isHexDigit c then
      let (value, digits, rest) := hexDigits 6 0 (c :: cs)
      match rest with
      | '\r' :: '\n' :: rest' => (charOfCode value, digits ++ ['\r', '\n'], rest')
      | b :: rest' =>
        if isBlank b then (charOfCode value, digits ++ [b], rest')
        else (charOfCode value, digits, rest)
      | [] => (charOfCode value, digits, [])
    else (c, [c], cs)

/-- The longest run of name characters: value, text and rest. -/
def scanChars : Nat → List Char → List Char × List Char × List Char
  | 0, cs => ([], [], cs)
  | _ + 1, [] => ([], [], [])
  | fuel + 1, c :: cs =>
    if isInner c || c.toNat = 0 then
      let (value, written, rest) := scanChars fuel cs
      ((if c.toNat = 0 then charOfCode 0 else c) :: value, c :: written, rest)
    else if c = '\\' && canEscape cs then
      let (e, text, rest) := escaped cs
      let (value, written, rest) := scanChars fuel rest
      (e :: value, c :: text ++ written, rest)
    else ([], [], c :: cs)

def scan (cs : List Char) : Name × List Char :=
  let (value, written, rest) := scanChars cs.length cs
  (⟨String.ofList value, String.ofList written⟩, rest)

/-- Whether a name starts here. -/
def startsAt : List Char → Bool
  | '-' :: '-' :: _ => true
  | '-' :: '\\' :: cs => canEscape cs
  | '-' :: c :: _ => isStart c || c.toNat = 0
  | '\\' :: cs => canEscape cs
  | c :: _ => isStart c || c.toNat = 0
  | [] => false

def codePoint (c : Char) : List Char := '\\' :: Nat.toDigits 16 c.toNat ++ [' ']

/-- A character inside a name. -/
def printInner (c : Char) : List Char :=
  if c.toNat = 0 then [charOfCode 0]
  else if c.toNat < 32 || c.toNat = 127 then codePoint c
  else if isInner c then [c]
  else ['\\', c]

/-- A name that reads back as `cs`. -/
def printChars : List Char → List Char
  | [] => []
  | ['-'] => codePoint '-'
  | '-' :: c :: cs =>
    '-' :: (if c.isDigit then codePoint c else printInner c) ++ cs.flatMap printInner
  | c :: cs => (if c.isDigit then codePoint c else printInner c) ++ cs.flatMap printInner

def print (value : String) : String := String.ofList (printChars value.toList)

/-- Custom names start with two hyphens, which are never escaped. -/
def isCustom (value : String) : Bool := ['-', '-'].isPrefixOf value.toList

/-- Any name, custom ones included. -/
def printAny (value : String) : String :=
  if isCustom value then "--" ++ print (String.ofList (value.toList.drop 2)) else print value

end Name

end ScopedStyles.Css
