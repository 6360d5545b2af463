import ScopedStyles.Script.Comment
import ScopedStyles.Script.Layout

/-!
# Writing a layout

`Layout.write` runs through a layout and gives the text, the comments put at their places, and the
marks: which place of the text answers to which position of the sources. A mark at the start of a
line waits until the line is indented; of several that wait the last one counts.
-/

namespace ScopedStyles.Script

/-- A place of the written text that answers to a position. Columns count units of sixteen bits. -/
structure Mark where
  pos : Nat
  line : Nat
  column : Nat
deriving DecidableEq, Repr, Inhabited

structure Writer where
  /-- The texts written, the last one first. -/
  written : List String
  line : Nat
  column : Nat
  atStart : Bool
  indentation : Nat
  waiting : Option Nat
  /-- The marks made, the last one first. -/
  marks : List Mark
  comments : Comments
deriving Inhabited

namespace Writer

def start (c : Comments) : Writer := ⟨[], 0, 0, true, 0, none, [], c⟩

def units (s : List Char) : Nat := s.foldl (fun n c => n + if c.toNat < 0x10000 then 1 else 2) 0

/-- Writes a text as it is. -/
def raw (w : Writer) (s : String) : Writer :=
  let cs := s.toList
  let lines := cs.count '\n'
  let tail := (cs.reverse.takeWhile (· ≠ '\n')).reverse
  { w with
    written := s :: w.written, line := w.line + lines
    column := (if lines = 0 then w.column else 0) + units tail }

/-- Marks the place reached, unless the mark is there already. -/
def put (w : Writer) (pos : Nat) : Writer :=
  let here (m : Mark) : Bool := m.line = w.line && m.column = w.column
  if pos = 0 || (w.marks.takeWhile here).any (·.pos = pos) then w
  else { w with marks := ⟨pos, w.line, w.column⟩ :: w.marks }

def mark (w : Writer) (pos : Nat) : Writer :=
  if pos = 0 then w
  else if w.atStart then { w with waiting := some pos } else w.put pos

def text (w : Writer) (s : String) : Writer :=
  if s.isEmpty then w
  else if w.atStart then
    let w := { w.raw (String.ofList (List.replicate (4 * w.indentation) ' ')) with atStart := false }
    let w := match w.waiting with
      | some pos => { w with waiting := none }.put pos
      | none => w
    w.raw s
  else w.raw s

def endLine (w : Writer) : Writer :=
  if w.atStart then { w with waiting := none }
  else { w.raw "\n" with atStart := true, waiting := none }

def comment (spaced : Bool) (w : Writer) (c : Comment) : Writer :=
  let w := if spaced then w.text " " else w
  let w := w.mark c.span.lo
  if c.isBlock then
    (((w.text ("/*" ++ c.text)).mark (c.span.hi - 2)).text "*/").text " "
  else ((w.text ("//" ++ c.text)).mark c.span.hi).endLine

def piece (w : Writer) : Piece → Writer
  | .text s => w.text s
  | .line => w.endLine
  | .indent => { w with indentation := w.indentation + 1 }
  | .dedent => { w with indentation := w.indentation - 1 }
  | .mark pos => w.mark pos
  | .leading pos =>
    if pos = 0 then w
    else
      let (cs, rest) := w.comments.takeLeading pos
      cs.foldl (comment false) { w with comments := rest }
  | .trailing pos spaced =>
    if pos = 0 then w
    else
      let (cs, rest) := w.comments.takeTrailing pos
      cs.foldl (comment spaced) { w with comments := rest }
  | .lineIfComment pos => if (w.comments.takeLeading pos).1.isEmpty then w else w.endLine

/-- The text written so far. -/
def result (w : Writer) : String := String.join w.written.reverse

end Writer

/-- The text of a layout and its marks in the order of the text. -/
def Layout.write (l : Layout) (c : Comments) : String × List Mark :=
  let w := l.foldl Writer.piece (Writer.start c)
  (w.result, w.marks.reverse)

end ScopedStyles.Script
