import ScopedStyles.Bytes

/-!
# Paths

A path is a row of bytes whose pieces stand between slashes. `Path.components` reads it: repeated
slashes and inner `.` pieces vanish, a leading `.` stays. `Path.normalize` removes `.` and `..`
without looking at a disk; at the root `..` stays at the root, and at the start of a relative path
it is kept. What is told of a path is its text, which paths may share.
-/

namespace ScopedStyles

structure Path where
  bytes : Bytes
deriving DecidableEq, Repr, Inhabited

namespace Path

/-- The text that a path is shown as. -/
def text (p : Path) : String := p.bytes.text

def slash : UInt8 := '/'.toUInt8

def dot : UInt8 := '.'.toUInt8

inductive Component where
  | root
  | current
  | parent
  | name (s : Bytes)
deriving DecidableEq, Repr, Inhabited

namespace Component

def bytes : Component → Bytes
  | root => [slash]
  | current => [dot]
  | parent => [dot, dot]
  | name s => s

/-- The component that a piece between slashes names, if any. -/
def ofPiece? (piece : Bytes) : Option Component :=
  if piece = [] ∨ piece = [dot] then none
  else if piece = [dot, dot] then some parent
  else some (name piece)

end Component

/-- Cuts at each slash. -/
def splitSlash : Bytes → List Bytes
  | [] => [[]]
  | b :: bs =>
    if b = slash then [] :: splitSlash bs
    else match splitSlash bs with
      | [] => [[b]]
      | piece :: rest => (b :: piece) :: rest

def pieces (p : Path) : List Bytes := splitSlash p.bytes

def isAbsolute (p : Path) : Bool := p.bytes.head? = some slash

def components (p : Path) : List Component :=
  let named := p.pieces.filterMap Component.ofPiece?
  if p.isAbsolute then .root :: named
  else if p.pieces.head? = some [dot] then .current :: named
  else named

/-- One slash between what is to be pieces. -/
def joinSlash (pieces : List Bytes) : Bytes := [slash].intercalate pieces

/-- The path that is written of components, one slash between names. -/
def ofComponents (cs : List Component) : Path :=
  match cs with
  | .root :: rest => ⟨slash :: joinSlash (rest.map Component.bytes)⟩
  | cs => ⟨joinSlash (cs.map Component.bytes)⟩

/-- The last component when it is a name. -/
def fileName? (p : Path) : Option Bytes :=
  match p.components.getLast? with
  | some (.name s) => some s
  | _ => none

/-- The name without its last extension; a dot at its start opens no extension. -/
def stemOf (name : Bytes) : Bytes :=
  match name.reverse.dropWhile (· ≠ dot) with
  | [] => name
  | [_] => name
  | _ :: rest => rest.reverse

def stem? (p : Path) : Option Bytes := p.fileName?.map stemOf

/-- The components of the directory that holds `p`; the root and the empty path have none. -/
def parentComponents (p : Path) : List Component :=
  match p.components.reverse with
  | [] | [.root] => []
  | _ :: rest => rest.reverse

/-- `p` with `q` written behind it; an absolute `q` replaces `p`. -/
def join (p q : Path) : Path :=
  if q.isAbsolute then q
  else if p.bytes = [] then q
  else if p.bytes.getLast? = some slash then ⟨p.bytes ++ q.bytes⟩
  else ⟨p.bytes ++ slash :: q.bytes⟩

/-- One step of normalisation on the components kept so far, the last first. -/
def stackStep (stack : List Component) : Component → List Component
  | .current => stack
  | .parent =>
    match stack with
    | .name _ :: rest => rest
    | .root :: _ => stack
    | _ => .parent :: stack
  | c => c :: stack

def normalizeComponents (cs : List Component) : List Component := (cs.foldl stackStep []).reverse

/-- Removes `.` and `..` as far as the path alone allows. -/
def normalize (p : Path) : Path := ofComponents (normalizeComponents p.components)

end Path

end ScopedStyles
