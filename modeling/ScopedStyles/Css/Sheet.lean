import ScopedStyles.Css.Prelude

/-!
# Style sheets

A sheet is a list of rules. A style rule has selectors and a block, an at-rule a name, a prelude
and perhaps a block. A block holds declarations, rules, keyframes or text that no grammar reads.
`Sheet.text` writes a sheet with two blanks for each level.
-/

namespace ScopedStyles.Css

/-- What a style rule applies to. -/
inductive Target where
  | selectors (list : List ComplexSelector)
  | relatives (list : List Relative)

instance : Inhabited Target := ⟨.selectors []⟩

mutual

inductive Rule where
  | style (target : Target) (block : List Item)
  | atBlock (name : String) (start : Prelude) (block : List Item)
  | statement (name : String) (start : Prelude)

/-- A member of a block. -/
inductive Item where
  | declaration (d : Declaration)
  | rule (r : Rule)
  | keyframe (selectors : List String) (block : List Item)
  | raw (text : String)

end

instance : Inhabited Rule := ⟨.statement "" .absent⟩
instance : Inhabited Item := ⟨.raw ""⟩

structure Sheet where
  rules : List Rule
deriving Inhabited

def indentText (level : Nat) : String := String.ofList (List.replicate (2 * level) ' ')

def Target.text (level : Nat) : Target → String
  | .selectors list => (", \n" ++ indentText level).intercalate (list.map ComplexSelector.text)
  | .relatives list => relativeList list

mutual

def Rule.text (level : Nat) : Rule → String
  | .style target block => target.text level ++ " " ++ blockText level block
  | .atBlock name start block => "@" ++ name ++ start.text ++ start.gap ++ blockText level block
  | .statement name start => "@" ++ name ++ start.text ++ ";"

def Item.text (level : Nat) : Item → String
  | .declaration d => d.text ++ ";"
  | .rule r => r.text level
  | .keyframe selectors block => ", ".intercalate selectors ++ " " ++ blockText level block
  | .raw text => text

/-- A block in its brackets: empty, raw text alone, or a line for each member. -/
def blockText (level : Nat) : List Item → String
  | [] => "\x7b\x7d"
  | [.raw text] => "\x7b" ++ text ++ "\x7d"
  | item :: rest =>
    "\x7b\n" ++ indentText (level + 1) ++ item.text (level + 1) ++ itemLines (level + 1) rest ++
      "\n" ++ indentText level ++ "\x7d"

/-- The members behind the first, each on a line of its own. -/
def itemLines (level : Nat) : List Item → String
  | [] => ""
  | item :: rest => "\n" ++ indentText level ++ item.text level ++ itemLines level rest

end

def Sheet.text (s : Sheet) : String := "\n".intercalate (s.rules.map (Rule.text 0))

end ScopedStyles.Css
