import ScopedStyles.Script.Node

/-!
# Comments

A comment belongs to the position of the token behind it or to the end of the token before it.
`Comments` holds them by position, in the order of the text; a printer takes those of a position
once.
-/

namespace ScopedStyles.Script

structure Comment where
  isBlock : Bool
  text : String
  span : Span
deriving DecidableEq, Repr, Inhabited

structure Comments where
  leading : List (Nat × Comment)
  trailing : List (Nat × Comment)
deriving Repr, Inhabited

namespace Comments

def empty : Comments := ⟨[], []⟩

def addLeading (c : Comments) (pos : Nat) (new : List Comment) : Comments :=
  { c with leading := c.leading ++ new.map (pos, ·) }

def addTrailing (c : Comments) (pos : Nat) (new : List Comment) : Comments :=
  { c with trailing := c.trailing ++ new.map (pos, ·) }

def isAt (pos : Nat) (entry : Nat × Comment) : Bool := entry.1 = pos

/-- The comments before a position, and what is left. -/
def takeLeading (c : Comments) (pos : Nat) : List Comment × Comments :=
  ((c.leading.filter (isAt pos)).map (·.2), { c with leading := c.leading.filter (!isAt pos ·) })

/-- The comments behind a position, and what is left. -/
def takeTrailing (c : Comments) (pos : Nat) : List Comment × Comments :=
  ((c.trailing.filter (isAt pos)).map (·.2), { c with trailing := c.trailing.filter (!isAt pos ·) })

end Comments

end ScopedStyles.Script
