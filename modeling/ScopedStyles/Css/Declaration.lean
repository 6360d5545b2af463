import ScopedStyles.Css.Value

/-!
# Declarations

A name, a colon and a value. The value of a custom name is any text; it is kept as written without
the blanks around it. A mark of importance may stand at the end.
-/

namespace ScopedStyles.Css

inductive Content where
  | row (values : List Value)
  | raw (text : String)
deriving Repr, Inhabited

structure Declaration where
  name : String
  content : Content
  important : Bool
deriving Repr, Inhabited

namespace Declaration

def contentText : Content → String
  | .row values => Value.rowText values
  | .raw text => text

/-- What stands before a mark of importance: it follows raw text directly. -/
def gapBeforeMark : Content → String
  | .row _ => " "
  | .raw _ => ""

def text (d : Declaration) : String :=
  d.name ++ ": " ++ contentText d.content ++
    (if d.important then gapBeforeMark d.content ++ "!important" else "")

/-- Splits off a mark of importance, given the parts from the last to the first. -/
def splitImportant : List Part → List Part × Bool
  | p :: rest =>
    if p.isWord "important" then
      match Part.trimLeft rest with
      | .token (.delim '!') :: before => (before.reverse, true)
      | _ => ((p :: rest).reverse, false)
    else ((p :: rest).reverse, false)
  | [] => ([], false)

/-- Tokens that may stand nowhere in a raw value. -/
def isStray : Part → Bool
  | .token (.delim '!') | .token (.broken _) | .token (.close _) => true
  | _ => false

def ofParts (ps : List Part) : Option Declaration :=
  match Part.trim ps with
  | .token (.ident n) :: rest =>
    match Part.trimLeft rest with
    | .token (.delim ':') :: value =>
      let (value, important) := splitImportant (Part.trim value).reverse
      let value := Part.trim value
      if Name.isCustom n.value then
        if n.value = "--" || value.any isStray then none
        else some ⟨Name.printAny n.value, .raw (Part.textOf value), important⟩
      else do return ⟨Name.print n.value, .row (← Value.ofParts value), important⟩
    | _ => none
  | _ => none

end Declaration

end ScopedStyles.Css
