import ScopedStyles.Decimal

/-!
# Reading JSON

A reader walks over a text and keeps the line and the byte column it has reached, so that each
fault is reported where it was seen. Values of no interest are skipped by `skipValue`, which checks
their grammar only; `content` keeps a value whose shape is decided later.
-/

namespace ScopedStyles.Json

/-- What a value turned out to be when another kind was wanted. -/
inductive Found where
  | null
  | bool (b : Bool)
  | integer (n : Int)
  | float (text : String)
  | string (s : String)
  | sequence
  | map
deriving DecidableEq, Repr, Inhabited

inductive Fault where
  | eofList | eofObject | eofString | eofValue
  | expectedColon | expectedListEnd | expectedObjectEnd | expectedIdent | expectedValue
  | invalidEscape | invalidNumber | numberOutOfRange | controlCharacter | keyMustBeString
  | loneSurrogate | endOfHexEscape | trailingComma | trailingCharacters | recursionLimit
  | invalidType (found : Found) (expected : String)
  | invalidLength (found expected : Nat)
  | unknownVariant (name : String) (known : List String)
  | missingField (name : String)
  | duplicateField (name : String)
deriving DecidableEq, Repr, Inhabited

/-- Whether the text ended early, is no JSON, or is JSON of the wrong shape. -/
inductive Category where
  | eof | malformed | data
deriving DecidableEq, Repr, Inhabited

def Fault.category : Fault → Category
  | eofList | eofObject | eofString | eofValue => .eof
  | invalidType .. | invalidLength .. | unknownVariant .. | missingField _ | duplicateField _ => .data
  | _ => .malformed

structure Place where
  line : Nat
  column : Nat
deriving DecidableEq, Repr, Inhabited

structure Error where
  fault : Fault
  place : Place
deriving DecidableEq, Repr, Inhabited

/-- The text not yet read and the place reached. -/
structure Cursor where
  rest : List Char
  place : Place
deriving DecidableEq, Repr, Inhabited

/-- A fault on its way out; one about the data gets its place from the value around it. -/
structure Failure where
  fault : Fault
  place : Option Place
deriving DecidableEq, Repr, Inhabited

abbrev Reader := ExceptT Failure (StateM Cursor)

def Place.after (p : Place) (c : Char) : Place :=
  if c = '\n' then ⟨p.line + 1, 0⟩ else ⟨p.line, p.column + c.utf8Size⟩

def Cursor.ofText (text : String) : Cursor := ⟨text.toList, ⟨1, 0⟩⟩

namespace Reader

def peek? : Reader (Option Char) := do return (← get).rest.head?

def next? : Reader (Option Char) := do
  let s ← get
  match s.rest with
  | [] => return none
  | c :: cs =>
    set (Cursor.mk cs (s.place.after c))
    return some c

def skip : Reader Unit := do let _ ← next?

/-- Fails at the place reached. -/
def failHere {α : Type} (fault : Fault) : Reader α := do throw ⟨fault, (← get).place⟩

/-- Fails at the character ahead. -/
def failAhead {α : Type} (fault : Fault) : Reader α := do
  let s ← get
  match s.rest with
  | [] => throw ⟨fault, s.place⟩
  | '\n' :: _ => throw ⟨fault, some ⟨s.place.line + 1, 0⟩⟩
  | _ :: _ => throw ⟨fault, some ⟨s.place.line, s.place.column + 1⟩⟩

/-- Fails without a place. -/
def failData {α : Type} (fault : Fault) : Reader α := throw ⟨fault, none⟩

/-- Gives a fault without a place the place reached. -/
def placed {α : Type} (r : Reader α) : Reader α :=
  tryCatch r fun f => do throw ⟨f.fault, some (f.place.getD (← get).place)⟩

def isBlank (c : Char) : Bool := c = ' ' || c = '\n' || c = '\t' || c = '\r'

def advanceBlanks : List Char → Place → Cursor
  | [], p => ⟨[], p⟩
  | c :: cs, p => if isBlank c then advanceBlanks cs (p.after c) else ⟨c :: cs, p⟩

/-- Skips blanks and shows the character behind them. -/
def blanks : Reader (Option Char) := do
  modify fun s => advanceBlanks s.rest s.place
  peek?

def word : List Char → Reader Unit
  | [] => pure ()
  | c :: cs => do
    match ← next? with
    | none => failHere .eofValue
    | some d => if d = c then word cs else failHere .expectedIdent

def hexValue? (c : Char) : Option Nat :=
  if '0' ≤ c ∧ c ≤ '9' then some (c.toNat - '0'.toNat)
  else if 'a' ≤ c ∧ c ≤ 'f' then some (c.toNat - 'a'.toNat + 10)
  else if 'A' ≤ c ∧ c ≤ 'F' then some (c.toNat - 'A'.toNat + 10)
  else none

/-- Moves over `n` bytes, into the middle of a character if need be. -/
def advanceBytes : Nat → List Char → Place → Cursor
  | 0, cs, p => ⟨cs, p⟩
  | _, [], p => ⟨[], p⟩
  | n + 1, c :: cs, p =>
    if c.utf8Size ≤ n + 1 then advanceBytes (n + 1 - c.utf8Size) cs (p.after c)
    else ⟨c :: cs, ⟨p.line, p.column + n + 1⟩⟩
termination_by n => n
decreasing_by have := c.utf8Size_pos; omega

def utf8Length (cs : List Char) : Nat := cs.foldl (fun n c => n + c.utf8Size) 0

/-- Four hexadecimal digits. -/
def hexEscape : Reader Nat := do
  let s ← get
  if utf8Length s.rest < 4 then
    set (s.rest.foldl (fun (t : Cursor) c => ⟨[], t.place.after c⟩) ⟨[], s.place⟩)
    failHere .eofString
  else
    set (advanceBytes 4 s.rest s.place)
    match (s.rest.take 4).map hexValue? with
    | [some a, some b, some c, some d] => return ((a * 16 + b) * 16 + c) * 16 + d
    | _ => failHere .invalidEscape

def peekInString : Reader Char := do
  match ← peek? with
  | none => failHere .eofString
  | some c => return c

/-- The character of a `\u` escape, two escapes joined into one character beyond the first plane. -/
def unicodeEscape : Reader Char := do
  let n ← hexEscape
  if 0xDC00 ≤ n ∧ n ≤ 0xDFFF then failHere .loneSurrogate
  else if n < 0xD800 ∨ 0xDBFF < n then return Char.ofNat n
  else
    if (← peekInString) = '\\' then skip else do skip; failHere .endOfHexEscape
    if (← peekInString) = 'u' then skip else do skip; failHere .endOfHexEscape
    let m ← hexEscape
    if m < 0xDC00 ∨ 0xDFFF < m then failHere .loneSurrogate
    else return Char.ofNat ((n - 0xD800) * 0x400 + (m - 0xDC00) + 0x10000)

/-- The character that an escape stands for, its backslash read already. -/
def escape (unicode : Reader Char) : Reader Char := do
  match ← next? with
  | none => failHere .eofString
  | some '"' => return '"'
  | some '\\' => return '\\'
  | some '/' => return '/'
  | some 'b' => return '\x08'
  | some 'f' => return '\x0c'
  | some 'n' => return '\n'
  | some 'r' => return '\r'
  | some 't' => return '\t'
  | some 'u' => unicode
  | some _ => failHere .invalidEscape

/-- The rest of a string behind its opening quote; `fuel` bounds its characters. -/
def stringRest (unicode : Reader Char) : Nat → Reader (List Char)
  | 0 => failHere .eofString
  | fuel + 1 => do
    match ← next? with
    | none => failHere .eofString
    | some '"' => return []
    | some '\\' => return (← escape unicode) :: (← stringRest unicode fuel)
    | some c =>
      if c.toNat < 0x20 then failHere .controlCharacter
      else return c :: (← stringRest unicode fuel)

def remaining : Reader Nat := do return (← get).rest.length

def string : Reader String := do
  return String.ofList (← stringRest unicodeEscape ((← remaining) + 1))

/-- A string whose escapes need only be four hexadecimal digits. -/
def skipString : Reader Unit := do
  let _ ← stringRest (do let _ ← hexEscape; return ' ') ((← remaining) + 1)

def isDigit (c : Char) : Bool := '0' ≤ c && c ≤ '9'

def takeDigits : List Char → Place → List Char × Cursor
  | [], p => ([], ⟨[], p⟩)
  | c :: cs, p =>
    if isDigit c then
      let (ds, s) := takeDigits cs (p.after c)
      (c :: ds, s)
    else ([], ⟨c :: cs, p⟩)

/-- The digits ahead, possibly none. -/
def digits : Reader (List Char) := do
  let s ← get
  let (ds, s') := takeDigits s.rest s.place
  set s'
  return ds

def natOfDigits (ds : List Char) : Nat := ds.foldl (fun n c => 10 * n + (c.toNat - '0'.toNat)) 0

/-- The integer digits of a number: no leading zero. -/
def integerDigits (atEnd : Fault) : Reader (List Char) := do
  match ← next? with
  | none => failHere atEnd
  | some '0' =>
    match ← peek? with
    | some c => if isDigit c then failAhead .invalidNumber else return ['0']
    | none => return ['0']
  | some c => if isDigit c then return c :: (← digits) else failHere .invalidNumber

/-- The digits behind a point. -/
def fractionDigits (atEnd : Fault) : Reader (List Char) := do
  if (← peek?) = some '.' then
    skip
    let ds ← digits
    if ds = [] then
      if (← peek?) = none then failAhead atEnd else failAhead .invalidNumber
    else return ds
  else return []

/-- The exponent, when one is written. -/
def exponent? (atEnd : Fault) : Reader (Option Int) := do
  match ← peek? with
  | some c =>
    if c = 'e' ∨ c = 'E' then
      skip
      let sign ← peek?
      if sign = some '+' ∨ sign = some '-' then skip
      match ← next? with
      | none => failHere atEnd
      | some d =>
        if isDigit d then
          let n := natOfDigits (d :: (← digits))
          return some (if sign = some '-' then -(n : Int) else n)
        else failHere .invalidNumber
    else return none
  | none => return none

/-- The greatest number that digits are gathered in. -/
def greatestWord : Nat := 18446744073709551615

/-- Gathers digits as long as they fit into a word: the word and the digits left over. -/
def gather : Nat → List Char → Nat × List Char
  | n, [] => (n, [])
  | n, c :: cs =>
    let next := 10 * n + (c.toNat - '0'.toNat)
    if next ≤ greatestWord then gather next cs else (n, c :: cs)

/-- A number that is not whole, as text. Digits that do not fit into a word only count as places
before the point and not at all behind it. -/
def floatText? (negative : Bool) (whole fraction : List Char) (e : Int) : Option String := do
  let (n, dropped) := gather 0 whole
  let (n, left) := gather n fraction
  let shift : Int := (dropped.length : Int) - (fraction.length - left.length : Nat) + e
  return (if negative then "-" else "") ++ Decimal.textOf (← Binary.ofScaled? n shift)

/-- A number behind its sign. -/
def number (negative : Bool) : Reader Found := do
  let whole ← integerDigits .eofValue
  let fraction ← fractionDigits .eofValue
  let e? ← exponent? .eofValue
  let n := natOfDigits whole
  if fraction = [] ∧ e? = none ∧ n ≤ greatestWord ∧ ¬ negative then return .integer n
  else if fraction = [] ∧ e? = none ∧ n ≤ 9223372036854775808 ∧ negative ∧ n ≠ 0 then return .integer (-n)
  else
    match floatText? negative whole fraction (e?.getD 0) with
    | some text => return .float text
    | none => failHere .numberOutOfRange

def skipNumber : Reader Unit := do
  let _ ← integerDigits .invalidNumber
  let _ ← fractionDigits .invalidNumber
  let _ ← exponent? .invalidNumber

/-- The opening bracket of a list or of an object. -/
inductive Frame where
  | list | object
deriving DecidableEq, Repr, Inhabited

def Frame.close : Frame → Char
  | list => ']'
  | object => '}'

def Frame.eof : Frame → Fault
  | list => .eofList
  | object => .eofObject

def Frame.expectedEnd : Frame → Fault
  | list => .expectedListEnd
  | object => .expectedObjectEnd

/-- Skips a value that opens no bracket, or enters the bracket that it opens. -/
def skipOpen : Reader (Option Frame) := do
  match ← blanks with
  | none => failAhead .eofValue
  | some 'n' => skip; word ['u', 'l', 'l']; return none
  | some 't' => skip; word ['r', 'u', 'e']; return none
  | some 'f' => skip; word ['a', 'l', 's', 'e']; return none
  | some '-' => skip; skipNumber; return none
  | some '"' => skip; skipString; return none
  | some '[' => skip; return some .list
  | some '{' => skip; return some .object
  | some c => if isDigit c then do skipNumber; return none else failAhead .expectedValue

/-- Leaves the brackets that close here; gives those still open, or none when the value is over. -/
def leaveFrames : Nat → Bool → List Frame → Reader (List Frame)
  | 0, _, _ => return []
  | _, _, [] => return []
  | fuel + 1, comma, frame :: outer => do
    match ← blanks with
    | none => failAhead frame.eof
    | some c =>
      if c = ',' ∧ comma then do skip; return frame :: outer
      else if c = frame.close then do skip; leaveFrames fuel true outer
      else if comma then failAhead frame.expectedEnd
      else return frame :: outer

/-- The key and colon in front of a value skipped inside an object. -/
def skipKey : Reader Unit := do
  match ← blanks with
  | none => failAhead .eofObject
  | some '"' =>
    skip
    skipString
    match ← blanks with
    | none => failAhead .eofObject
    | some ':' => skip
    | some _ => failAhead .expectedColon
  | some _ => failAhead .keyMustBeString

def skipLoop : Nat → List Frame → Reader Unit
  | 0, _ => return ()
  | fuel + 1, frames => do
    let opened ← skipOpen
    let frames ← match opened with
      | some frame => leaveFrames (← remaining) false (frame :: frames)
      | none => leaveFrames ((← remaining) + 1) true frames
    match frames with
    | [] => return ()
    | frame :: _ =>
      if frame = .object then skipKey
      skipLoop fuel frames

/-- Skips one value of any kind and depth. -/
def skipValue : Reader Unit := do skipLoop ((← remaining) + 1) []

/-- Whether another item follows in a list. -/
def moreItems (first : Bool) : Reader Bool := do
  match ← blanks with
  | none => failAhead .eofList
  | some ']' => return false
  | some c =>
    if first then return true
    else if c = ',' then
      skip
      match ← blanks with
      | some ']' => failAhead .trailingComma
      | some _ => return true
      | none => failAhead .eofValue
    else failAhead .expectedListEnd

/-- Whether another key follows in an object. -/
def moreKeys (first : Bool) : Reader Bool := do
  match ← blanks with
  | none => failAhead .eofObject
  | some '}' => return false
  | some c =>
    if first then
      if c = '"' then return true else failAhead .keyMustBeString
    else if c = ',' then
      skip
      match ← blanks with
      | some '"' => return true
      | some '}' => failAhead .trailingComma
      | some _ => failAhead .keyMustBeString
      | none => failAhead .eofValue
    else failAhead .expectedObjectEnd

def colon : Reader Unit := do
  match ← blanks with
  | none => failAhead .eofObject
  | some ':' => skip
  | some _ => failAhead .expectedColon

def endList : Reader Unit := do
  match ← blanks with
  | none => failAhead .eofList
  | some ']' => skip
  | some ',' =>
    skip
    match ← blanks with
    | some ']' => failAhead .trailingComma
    | _ => failAhead .trailingCharacters
  | some _ => failAhead .trailingCharacters

def endObject : Reader Unit := do
  match ← blanks with
  | none => failAhead .eofObject
  | some '}' => skip
  | some ',' => failAhead .trailingComma
  | some _ => failAhead .trailingCharacters

/-- Reads a bracket's inside and then its end, the end also after a fault inside; the fault inside
wins. -/
def closing {α : Type} (inside : Reader α) (close : Reader Unit) : Reader α := do
  let r : Except Failure α ← tryCatch (do return .ok (← inside)) fun f => return .error f
  match r with
  | .ok a => do close; return a
  | .error f => do
    tryCatch close fun _ => return ()
    throw f

/-- A bracket entered with `depth` levels left; the last level may not be used. -/
def bracket {α : Type} (depth : Nat) (inside : Reader α) (close : Reader Unit) : Reader α :=
  if depth ≤ 1 then failAhead .recursionLimit
  else do
    skip
    closing inside close

/-- A value kept until its shape is decided. -/
inductive Content where
  | null
  | bool (b : Bool)
  | number (n : Found)
  | string (s : String)
  | list (items : List Content)
  | object (fields : List (String × Content))
deriving Repr, Inhabited

def Content.found : Content → Found
  | null => .null
  | bool b => .bool b
  | number n => n
  | string s => .string s
  | list _ => .sequence
  | object _ => .map

/-- The items of a list, read one by one. -/
def items {α : Type} (item : Reader α) : Nat → Bool → Reader (List α)
  | 0, _ => return []
  | fuel + 1, first => do
    if ← moreItems first then return (← item) :: (← items item fuel false) else return []

/-- The fields of an object; `field` reads the value that belongs to a key. -/
def fields {α : Type} (field : String → Reader α) : Nat → Bool → Reader (List α)
  | 0, _ => return []
  | fuel + 1, first => do
    if ← moreKeys first then
      skip
      let key ← string
      return (← field key) :: (← fields field fuel false)
    else return []

/-- Any value, with `depth` levels of brackets left. -/
def content : Nat → Reader Content
  | 0 => failAhead .recursionLimit
  | depth + 1 => do
    match ← blanks with
    | none => failAhead .eofValue
    | some 'n' => skip; word ['u', 'l', 'l']; return .null
    | some 't' => skip; word ['r', 'u', 'e']; return .bool true
    | some 'f' => skip; word ['a', 'l', 's', 'e']; return .bool false
    | some '-' => skip; return .number (← number true)
    | some '"' => skip; return .string (← string)
    | some '[' =>
      let n ← remaining
      placed (bracket (depth + 1) (do return .list (← items (content depth) n true)) endList)
    | some '{' =>
      let n ← remaining
      let field (key : String) : Reader (String × Content) := do
        colon
        return (key, ← content depth)
      placed (bracket (depth + 1) (do return .object (← fields field n true)) endObject)
    | some c =>
      if isDigit c then return .number (← number false) else failAhead .expectedValue

/-- Reports the value ahead as one of the wrong kind. -/
def wrongType {α : Type} (expected : String) : Reader α := placed do
  match ← peek? with
  | some 'n' => skip; word ['u', 'l', 'l']; failData (.invalidType .null expected)
  | some 't' => skip; word ['r', 'u', 'e']; failData (.invalidType (.bool true) expected)
  | some 'f' => skip; word ['a', 'l', 's', 'e']; failData (.invalidType (.bool false) expected)
  | some '-' => skip; failData (.invalidType (← number true) expected)
  | some '"' => skip; failData (.invalidType (.string (← string)) expected)
  | some '[' => failData (.invalidType .sequence expected)
  | some '{' => failData (.invalidType .map expected)
  | some c =>
    if isDigit c then do failData (.invalidType (← number false) expected)
    else failAhead .expectedValue
  | none => failAhead .expectedValue

/-- Runs a reader over a whole text. -/
def run {α : Type} (r : Reader α) (text : String) : Except Error α :=
  let whole : Reader α := do
    let a ← r
    match ← blanks with
    | some _ => failAhead .trailingCharacters
    | none => return a
  match ExceptT.run whole (Cursor.ofText text) with
  | (.ok a, _) => .ok a
  | (.error f, s) => .error ⟨f.fault, f.place.getD s.place⟩

end Reader

end ScopedStyles.Json
