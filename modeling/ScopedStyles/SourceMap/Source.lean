import ScopedStyles.Script.Node

/-!
# Sources

Positions count bytes over all sources, with one position left free between two sources.
`Source.place?` gives the line and the column of a position; columns count units of sixteen bits.
-/

namespace ScopedStyles

structure Source where
  name : String
  text : String
  start : Nat
deriving DecidableEq, Repr, Inhabited

namespace Source

def stop (s : Source) : Nat := s.start + s.text.utf8ByteSize

def span (s : Source) : Script.Span := ⟨s.start, s.stop⟩

def holds (s : Source) (pos : Nat) : Bool := s.start ≤ pos && pos < s.stop

/-- Whether another line starts behind a character; none starts at the end of the text. -/
def endsLine (c : Char) (rest : List Char) : Bool :=
  !rest.isEmpty &&
    (c = '\n' || (c = '\r' && rest.head? ≠ some '\n') || c.toNat = 0x2028 || c.toNat = 0x2029)

/-- Line and column after a number of bytes. -/
def walk (line column : Nat) : Nat → List Char → Nat × Nat
  | 0, _ | _, [] => (line, column)
  | bytes, c :: cs =>
    let left := bytes - c.utf8Size
    if endsLine c cs then walk (line + 1) 0 left cs
    else walk line (column + if c.toNat < 0x10000 then 1 else 2) left cs

/-- Line and column of a position; an empty source has no lines. -/
def place? (s : Source) (pos : Nat) : Option (Nat × Nat) :=
  if s.text.isEmpty then none else some (walk 0 0 (pos - s.start) s.text.toList)

end Source

/-- The sources that positions refer to, in the order of their positions. -/
structure Sources where
  all : List Source
deriving DecidableEq, Repr, Inhabited

namespace Sources

def empty : Sources := ⟨[]⟩

/-- Where the next source starts. -/
def next (s : Sources) : Nat := match s.all.getLast? with
  | none => 1
  | some last => last.stop + 1

def add (s : Sources) (name text : String) : Source × Sources :=
  let new : Source := ⟨name, text, s.next⟩
  (new, ⟨s.all ++ [new]⟩)

/-- The last source that starts at or before a position. -/
def find? (s : Sources) (pos : Nat) : Option Source := (s.all.filter (·.start ≤ pos)).getLast?

end Sources

end ScopedStyles
