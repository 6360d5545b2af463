/-!
# Writing JSON

Strings escape the quote, the backslash and the control characters; objects and lists are laid out
with two blanks a level, or without any blank by `compact`.
-/

namespace ScopedStyles.Json

def hexDigit (n : Nat) : Char := "0123456789abcdef".toList.getD n '0'

def escapeChar (c : Char) : List Char :=
  if c = '"' then ['\\', '"']
  else if c = '\\' then ['\\', '\\']
  else if c = '\x08' then ['\\', 'b']
  else if c = '\x0c' then ['\\', 'f']
  else if c = '\n' then ['\\', 'n']
  else if c = '\r' then ['\\', 'r']
  else if c = '\t' then ['\\', 't']
  else if c.toNat < 0x20 then
    ['\\', 'u', '0', '0', hexDigit (c.toNat / 16), hexDigit (c.toNat % 16)]
  else [c]

def stringChars (s : String) : List Char := '"' :: s.toList.flatMap escapeChar ++ ['"']

/-- What this library writes as JSON. -/
inductive Value where
  | null
  | bool (b : Bool)
  | number (text : String)
  | string (s : String)
  | list (items : List Value)
  | object (fields : List (String × Value))
deriving Repr, Inhabited

def boolChars (b : Bool) : List Char := if b then ['t', 'r', 'u', 'e'] else ['f', 'a', 'l', 's', 'e']

def newline (indent : Nat) : List Char := '\n' :: List.replicate (2 * indent) ' '

/-- Pieces between brackets, each on a line of its own. -/
def layout (opening closing : Char) (indent : Nat) (items : List (List Char)) : List Char :=
  match items with
  | [] => [opening, closing]
  | items =>
    opening :: (List.intercalate [','] (items.map (newline (indent + 1) ++ ·)))
      ++ newline indent ++ [closing]

mutual

def prettyChars (indent : Nat) : Value → List Char
  | .null => ['n', 'u', 'l', 'l']
  | .bool b => boolChars b
  | .number text => text.toList
  | .string s => stringChars s
  | .list items => layout '[' ']' indent (prettyItems (indent + 1) items)
  | .object fields => layout '{' '}' indent (prettyFields (indent + 1) fields)

def prettyItems (indent : Nat) : List Value → List (List Char)
  | [] => []
  | v :: vs => prettyChars indent v :: prettyItems indent vs

def prettyFields (indent : Nat) : List (String × Value) → List (List Char)
  | [] => []
  | (k, v) :: fs => (stringChars k ++ [':', ' '] ++ prettyChars indent v) :: prettyFields indent fs

end

def Value.pretty (v : Value) : String := String.ofList (prettyChars 0 v)

mutual

def compactChars : Value → List Char
  | .null => ['n', 'u', 'l', 'l']
  | .bool b => boolChars b
  | .number text => text.toList
  | .string s => stringChars s
  | .list items => '[' :: List.intercalate [','] (compactItems items) ++ [']']
  | .object fields => '{' :: List.intercalate [','] (compactFields fields) ++ ['}']

def compactItems : List Value → List (List Char)
  | [] => []
  | v :: vs => compactChars v :: compactItems vs

def compactFields : List (String × Value) → List (List Char)
  | [] => []
  | (k, v) :: fs => (stringChars k ++ ':' :: compactChars v) :: compactFields fs

end

def Value.compact (v : Value) : String := String.ofList (compactChars v)

end ScopedStyles.Json
