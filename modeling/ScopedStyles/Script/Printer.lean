import ScopedStyles.Script.Layout.Item

/-!
# The layout of a whole script

`Node.part` lays a tree out from its leaves up; `Program.layout` puts the items under each other.
-/

namespace ScopedStyles.Script

/-- The layout of a node from those of its children. -/
def Layout.node (k : Kind) (s : Span) (ks : List Part) : Layout :=
  ((expression k s ks) <|> (pattern k s ks) <|> (classMember k s ks) <|> (statement? k s ks) <|>
    (item k s ks) <|> (markup k s ks) <|> (type k s ks) <|> (typeMember k s ks) <|>
    (typeDeclaration k s ks)).getD []

namespace Node

mutual

/-- A node with its layout. -/
def part : Node → Part
  | mk k s ks =>
    let ps := parts ks
    .mk (mk k s ks) (Layout.node k s ps) ps

def parts : List Node → List Part
  | [] => []
  | n :: ns => n.part :: parts ns

end

end Node

namespace Program

/-- The items of a program, each of which ends its own line if it ends one. -/
def layout (p : Program) : Layout :=
  let shell := match p.shebang with
    | some line => .text ("#!" ++ line) :: [.line]
    | none => []
  shell ++ [.leading p.span.lo] ++ (Node.parts p.body).flatMap Layout.statement ++
    [.trailing p.span.hi true]

end Program

end ScopedStyles.Script
