/-!
# Mappings

A segment relates a place of a written text to a place of a source. `Mappings.encode` writes the
segments of each line between semicolons, each number as the difference to the one before, in
groups of five bits of which the lowest one first holds the sign.
-/

namespace ScopedStyles.Mappings

structure Segment where
  line : Nat
  column : Nat
  source : Nat
  sourceLine : Nat
  sourceColumn : Nat
deriving DecidableEq, Repr, Inhabited

def alphabet : List Char :=
  "ABCDEFGHIJKLMNOPQRSTUVWXYZabcdefghijklmnopqrstuvwxyz0123456789+/".toList

def digit (n : Nat) : Char := alphabet.getD n 'A'

/-- Groups of five bits, the lowest first; all but the last carry a sixth bit. -/
def groups : Nat → Nat → List Char
  | 0, _ => []
  | fuel + 1, n => if n < 32 then [digit n] else digit (n % 32 + 32) :: groups fuel (n / 32)

/-- The sign of a number goes to its lowest bit. -/
def zigzag (i : Int) : Nat := if i < 0 then 2 * i.natAbs + 1 else 2 * i.natAbs

def number (i : Int) : List Char := groups (zigzag i + 1) (zigzag i)

def difference (new old : Nat) : List Char := number ((new : Int) - (old : Int))

/-- A segment behind another one; its column is relative only within a line. -/
def segment (old new : Segment) : List Char :=
  difference new.column (if old.line = new.line then old.column else 0) ++
    difference new.source old.source ++ difference new.sourceLine old.sourceLine ++
    difference new.sourceColumn old.sourceColumn

/-- The segments behind the one given; one that repeats it is left out. -/
def encodeFrom (isFirst : Bool) (old : Segment) : List Segment → List Char
  | [] => []
  | new :: rest =>
    if old.line = new.line then
      if isFirst then segment old new ++ encodeFrom false new rest
      else if old = new then encodeFrom false new rest
      else ',' :: segment old new ++ encodeFrom false new rest
    else
      List.replicate (new.line - old.line) ';' ++ segment old new ++ encodeFrom false new rest

def encode (segments : List Segment) : String :=
  String.ofList (encodeFrom true ⟨0, 0, 0, 0, 0⟩ segments)

end ScopedStyles.Mappings
