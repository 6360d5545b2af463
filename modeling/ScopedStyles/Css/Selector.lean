import ScopedStyles.Css.Name

/-!
# Selectors

A complex selector is a row of compounds and the combinators between them. A compound has at most
one `&`, at most one element name and any number of further conditions, some of which take
selectors as arguments. `ComplexSelector.text` writes a selector.
-/

namespace ScopedStyles.Css

inductive Combinator where
  | descendant | child | next | later | column
deriving DecidableEq, Repr, Inhabited

namespace Combinator

def text : Combinator → String
  | descendant => " "
  | child => " > "
  | next => " + "
  | later => " ~ "
  | column => " || "

/-- The sign alone, as it stands before a relative selector. -/
def sign : Combinator → String
  | descendant => ""
  | child => ">"
  | next => "+"
  | later => "~"
  | column => "||"

end Combinator

/-- An element name, `*` for all; the namespace before the bar may be empty, `*` or a name. -/
structure Element where
  space : Option String
  name : Option String
deriving DecidableEq, Repr, Inhabited

namespace Element

def nameText : Option String → String
  | some n => Name.print n
  | none => "*"

/-- A namespace that is the empty text prints as nothing before the bar, `*` as itself. -/
def spaceText (s : String) : String :=
  if s = "" ∨ s = "*" then s ++ "|" else Name.print s ++ "|"

def text (e : Element) : String :=
  (match e.space with
    | some s => spaceText s
    | none => "") ++ nameText e.name

end Element

/-- What an attribute is compared with: the operator, the text as written, and the flag. -/
structure AttributeTest where
  operator : String
  value : String
  flag : Option String
deriving DecidableEq, Repr, Inhabited

structure Attribute where
  space : Option String
  name : String
  test : Option AttributeTest
deriving DecidableEq, Repr, Inhabited

def Attribute.text (a : Attribute) : String :=
  "[" ++ (match a.space with
    | some s => Element.spaceText s
    | none => "") ++ Name.print a.name ++
  (match a.test with
    | some t => t.operator ++ t.value ++ (match t.flag with
      | some f => " " ++ f
      | none => "")
    | none => "") ++ "]"

mutual

/-- A condition on an element. -/
inductive Simple where
  | id (name : String)
  | className (name : String)
  | attribute (a : Attribute)
  | pseudoClass (name : String) (args : Args)
  | pseudoElement (name : String) (args : Args)

/-- What stands in the brackets of a pseudo-class or pseudo-element. -/
inductive Args where
  | absent
  | text (s : String)
  | complex (selector : ComplexSelector)
  | compounds (selectors : List Compound)
  | list (selectors : List ComplexSelector)
  | lenient (members : List Member)
  | formula (formula : String) (joint : String) (among : List ComplexSelector)

/-- A member of a list that forgives what is no selector. -/
inductive Member where
  | selector (c : ComplexSelector)
  | relative (r : Relative)
  | raw (text : String)

inductive Compound where
  | mk (nesting : Bool) (element : Option Element) (conditions : List Simple)

inductive Child where
  | compound (c : Compound)
  | combinator (k : Combinator)

inductive ComplexSelector where
  | mk (children : List Child)

inductive Relative where
  | mk (start : Option Combinator) (selector : ComplexSelector)

end

instance : Inhabited Compound := ⟨.mk false none []⟩
instance : Inhabited ComplexSelector := ⟨.mk []⟩
instance : Inhabited Relative := ⟨.mk none default⟩
instance : Inhabited Simple := ⟨.id ""⟩
instance : Inhabited Member := ⟨.raw ""⟩
instance : Inhabited Args := ⟨.absent⟩
instance : Inhabited Child := ⟨.combinator .descendant⟩

def ComplexSelector.children : ComplexSelector → List Child
  | mk cs => cs

namespace Simple

def isPseudoElement : Simple → Bool
  | pseudoElement _ _ => true
  | _ => false

def isPseudo : Simple → Bool
  | pseudoClass _ _ | pseudoElement _ _ => true
  | _ => false

end Simple

namespace Compound

def nesting : Compound → Bool
  | mk n _ _ => n

def element : Compound → Option Element
  | mk _ e _ => e

def conditions : Compound → List Simple
  | mk _ _ cs => cs

def isEmpty (c : Compound) : Bool := !c.nesting && c.element.isNone && c.conditions.isEmpty

end Compound

/-- A class name behind its dot. -/
def classText (name : String) : String := "." ++ Name.print name

mutual

def Simple.text : Simple → String
  | .id n => "#" ++ Name.print n
  | .className n => classText n
  | .attribute a => a.text
  | .pseudoClass n args => ":" ++ Name.print n ++ args.brackets
  | .pseudoElement n args => "::" ++ Name.print n ++ args.brackets

/-- The arguments in their brackets, if there are any. -/
def Args.brackets : Args → String
  | .absent => ""
  | .text s => "(" ++ s ++ ")"
  | .complex c => "(" ++ c.text ++ ")"
  | .compounds cs => "(" ++ compoundList cs ++ ")"
  | .list cs => "(" ++ complexList cs ++ ")"
  | .lenient ms => "(" ++ memberList ms ++ ")"
  | .formula f _ [] => "(" ++ f ++ ")"
  | .formula f joint (c :: cs) => "(" ++ f ++ " " ++ joint ++ " " ++ complexList (c :: cs) ++ ")"

def Member.text : Member → String
  | .selector c => c.text
  | .relative r => r.text
  | .raw s => s

def Compound.text : Compound → String
  | .mk nesting element conditions =>
    (if nesting then "&" else "") ++ (match element with
      | some e => e.text
      | none => "") ++ simpleRow conditions

def Child.text : Child → String
  | .compound c => c.text
  | .combinator k => k.text

def ComplexSelector.text : ComplexSelector → String
  | .mk children => childRow children

def Relative.text : Relative → String
  | .mk none c => c.text
  | .mk (some k) c => k.sign ++ " " ++ c.text

def simpleRow : List Simple → String
  | [] => ""
  | s :: rest => s.text ++ simpleRow rest

def childRow : List Child → String
  | [] => ""
  | c :: rest => c.text ++ childRow rest

/-- Selectors with commas between them. -/
def complexList : List ComplexSelector → String
  | [] => ""
  | [c] => c.text
  | c :: rest => c.text ++ ", " ++ complexList rest

/-- Members with commas between them; raw text keeps the blanks that it came with. -/
def memberList : List Member → String
  | [] => ""
  | [m] => m.text
  | m :: .raw s :: rest => m.text ++ "," ++ memberList (.raw s :: rest)
  | m :: next :: rest => m.text ++ ", " ++ memberList (next :: rest)

/-- Compounds with commas between them. -/
def compoundList : List Compound → String
  | [] => ""
  | [c] => c.text
  | c :: rest => c.text ++ ", " ++ compoundList rest

def relativeList : List Relative → String
  | [] => ""
  | [r] => r.text
  | r :: rest => r.text ++ ", " ++ relativeList rest

end

end ScopedStyles.Css
