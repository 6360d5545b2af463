import ScopedStyles.Script.Node

/-!
# Layouts

A layout says how a script is written: its texts, where lines end, how far they are indented, which
places answer to which positions of the sources, and where comments go. The layout of a node is made
of the layouts of its children, which `Part` keeps beside them.
-/

namespace ScopedStyles.Script

inductive Piece where
  /-- A text, which may run over lines. -/
  | text (s : String)
  /-- The end of a line, unless the line is empty. -/
  | line
  | indent
  | dedent
  /-- What follows comes from this position. -/
  | mark (pos : Nat)
  /-- The comments before this position. -/
  | leading (pos : Nat)
  /-- The comments behind this position. -/
  | trailing (pos : Nat) (spaced : Bool)
  /-- The end of a line if a comment stands before this position. -/
  | lineIfComment (pos : Nat)
deriving DecidableEq, Repr, Inhabited

abbrev Layout := List Piece

/-- A node with its layout and those of its children. -/
inductive Part where
  | mk (node : Node) (layout : Layout) (kids : List Part)
deriving Inhabited

namespace Part

def node : Part → Node
  | mk n _ _ => n

/-- The layout without what depends on the place of the node. -/
def plain : Part → Layout
  | mk _ l _ => l

def kids : Part → List Part
  | mk _ _ ks => ks

def kind (p : Part) : Kind := p.node.kind

def lo (p : Part) : Nat := p.node.lo

def hi (p : Part) : Nat := p.node.hi

def isAbsent (p : Part) : Bool := p.node.isAbsent

/-- A part that is not there. -/
def absent : Part := mk .absent [] []

/-- A child by its place. -/
def kid (p : Part) (i : Nat) : Part := p.kids.getD i absent

/-- The layout with the comments behind it, as expressions and patterns are written. -/
def whole (p : Part) : Layout := if p.isAbsent then [] else p.plain ++ [.trailing p.hi true]

end Part

namespace Layout

def say (s : String) : Layout := [.text s]

def space : Layout := say " "

/-- The comments before a node and its first mark. -/
def opened (s : Span) : Layout := [.leading s.lo, .mark s.lo]

/-- A word of the language, marked at both its ends. -/
def marked (s : Span) (w : String) : Layout := opened s ++ say w ++ [.mark s.hi]

/-- The mark of a closing sign. -/
def beforeEnd (s : Span) : Layout := if s.isNone then [] else [.mark (s.hi - 1)]

/-- The mark behind a node. -/
def atEnd (s : Span) : Layout := [.mark s.hi]

/-- A layout if there is something to write, behind another one. -/
def after (before : String) (p : Part) (l : Layout) : Layout :=
  if p.isAbsent then [] else say before ++ l

def on (b : Bool) (s : String) : Layout := if b then say s else []

/-- Layouts with a text between them. -/
def joined (between : Layout) (ls : List Layout) : Layout := (ls.intersperse between).flatten

/-- The comments right before the last character of an item, unless its list ends there too. -/
def beforeLast (parent : Span) (p : Part) : Layout :=
  if p.hi = parent.hi then [] else [.leading (p.hi - 1)]

/-- The items of a list, each with the comments behind it, and a sign between them if there is one;
`parent` is the span of what the list is part of. -/
def row (parent : Span) (sign : Option String) (gap : Layout) (item : Part → Layout) :
    List Part → Layout
  | [] => []
  | p :: ps =>
    let inner := item p ++ [.trailing p.hi false] ++
      if sign.isSome then beforeLast parent p else []
    if ps.isEmpty then inner
    else inner ++ say (sign.getD "") ++ gap ++ row parent sign gap item ps

/-- Items in one line with commas between them. -/
def inLine (parent : Span) (item : Part → Layout) (ps : List Part) : Layout :=
  row parent (some ",") space item ps

/-- Items on lines of their own, further in. -/
def inLines (parent : Span) (sign : Option String) (item : Part → Layout) (ps : List Part) :
    Layout :=
  [.line, .indent] ++ row parent sign [.line] item ps ++ [.dedent, .line]

end Layout

end ScopedStyles.Script
