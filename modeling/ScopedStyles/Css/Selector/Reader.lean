import ScopedStyles.Css.Selector
import ScopedStyles.Css.Selector.Formula

/-!
# Reading selectors

A list of parts is first read into atoms, one for each condition, combinator, blank and comma;
`assemble` then groups the atoms into compounds. Reading inside brackets is one level less deep,
so `atoms` takes a bound on the depth.
-/

namespace ScopedStyles.Css

inductive Atom where
  | nesting
  | element (e : Element)
  | simple (s : Simple)
  | combinator (k : Combinator)
  | blank
  | comma

namespace Atom

def isBlank : Atom → Bool
  | blank => true
  | _ => false

def isComma : Atom → Bool
  | comma => true
  | _ => false

def trimLeft (as : List Atom) : List Atom := as.dropWhile isBlank

def trim (as : List Atom) : List Atom := (trimLeft (trimLeft as).reverse).reverse

def splitCommas : List Atom → List (List Atom)
  | [] => [[]]
  | a :: as =>
    if a.isComma then [] :: splitCommas as
    else match splitCommas as with
      | [] => [[a]]
      | piece :: rest => (a :: piece) :: rest

end Atom

/-- What stands between two compounds: nothing, blanks, or a combinator. -/
inductive Gap where
  | none | blank | sign (k : Combinator)

namespace ComplexSelector

/-- The children read so far, the last one first, with a compound in front that another one
follows. -/
def separate (gap : Gap) (children : List Child) : List Child :=
  match gap, children with
  | .sign k, cs => .combinator k :: cs
  | _, [] => []
  | _, cs => .combinator .descendant :: cs

/-- Adds an atom that starts a compound. -/
def start (gap : Gap) (children : List Child) (c : Compound) : List Child :=
  .compound c :: separate gap children

/-- Whether a condition may join others: behind a pseudo-element only pseudo-classes and
pseudo-elements do. -/
def joins (conditions : List Simple) (s : Simple) : Bool :=
  s.isPseudo || !conditions.any Simple.isPseudoElement

/-- Groups atoms into compounds. A second `&`, an element name that does not stand at the start of
its compound, and a condition that may not join it start a compound of their own. -/
def assembleFrom : Gap → List Child → List Atom → Option (Gap × List Child)
  | gap, children, [] => some (gap, children)
  | .none, children, .blank :: rest => assembleFrom .blank children rest
  | gap, children, .blank :: rest => assembleFrom gap children rest
  | .sign _, _, .combinator _ :: _ => none
  | _, [], .combinator _ :: _ => none
  | _, children, .combinator k :: rest => assembleFrom (.sign k) children rest
  | gap, children, .nesting :: rest =>
    assembleFrom .none (start gap children (.mk true none [])) rest
  | .none, .compound (.mk n none []) :: children, .element e :: rest =>
    assembleFrom .none (.compound (.mk n (some e) []) :: children) rest
  | gap, children, .element e :: rest =>
    assembleFrom .none (start gap children (.mk false (some e) [])) rest
  | .none, .compound (.mk n e cs) :: children, .simple s :: rest =>
    if joins cs s then assembleFrom .none (.compound (.mk n e (cs ++ [s])) :: children) rest
    else
      assembleFrom .none (start .none (.compound (.mk n e cs) :: children) (.mk false none [s])) rest
  | gap, children, .simple s :: rest =>
    assembleFrom .none (start gap children (.mk false none [s])) rest
  | _, _, .comma :: _ => none

/-- A selector; `trailing` says whether a combinator may stand at its end. -/
def ofAtoms (trailing : Bool) (as : List Atom) : Option ComplexSelector := do
  match ← assembleFrom .none [] (Atom.trim as) with
  | (_, []) => none
  | (.sign k, children) =>
    if trailing then some (.mk (.combinator k :: children).reverse) else none
  | (_, children) => some (.mk children.reverse)

def listOfAtoms (trailing : Bool) (as : List Atom) : Option (List ComplexSelector) :=
  (Atom.splitCommas as).mapM (ofAtoms trailing)

end ComplexSelector

namespace Relative

/-- A bar at the start begins a combinator and no element name. -/
def ofAtoms (trailing : Bool) (as : List Atom) : Option Relative :=
  match Atom.trim as with
  | .element ⟨some "", _⟩ :: _ => none
  | .combinator k :: rest => (ComplexSelector.ofAtoms trailing rest).map (.mk (some k))
  | as => (ComplexSelector.ofAtoms trailing as).map (.mk none)

def listOfAtoms (trailing : Bool) (as : List Atom) : Option (List Relative) :=
  (Atom.splitCommas as).mapM (ofAtoms trailing)

end Relative

namespace Compound

/-- A compound alone. -/
def ofAtoms (as : List Atom) : Option Compound := do
  match (← ComplexSelector.ofAtoms false as).children with
  | [.compound c] => some c
  | _ => none

def listOfAtoms (as : List Atom) : Option (List Compound) :=
  (Atom.splitCommas as).mapM ofAtoms

end Compound

namespace Attribute

def operatorOf : List Part → Option (String × List Part)
  | .token (.delim '=') :: rest => some ("=", rest)
  | .token (.delim c) :: .token (.delim '=') :: rest =>
    if c = '~' || c = '|' || c = '^' || c = '$' || c = '*' then some (String.ofList [c, '='], rest)
    else none
  | _ => none

def flagOf (ps : List Part) : Option (Option String) :=
  match Part.trim ps with
  | [] => some none
  | [.token (.ident f)] => some (some (Name.print f.value))
  | _ => none

def valueOf : List Part → Option (String × Option String)
  | .token (.ident v) :: rest => (flagOf rest).map (Name.print v.value, ·)
  | .token (.string _ w) :: rest => (flagOf rest).map (w, ·)
  | _ => none

def testOf (ps : List Part) : Option (Option AttributeTest) :=
  match Part.trimLeft ps with
  | [] => some none
  | ps => do
    let (op, rest) ← operatorOf ps
    let (value, flag) ← valueOf (Part.trimLeft rest)
    return some ⟨op, value, flag⟩

/-- The name, with the namespace directly before it. -/
def nameOf : List Part → Option (Option String × String × List Part)
  | .token (.ident n) :: .token (.delim '|') :: .token (.ident m) :: rest =>
    some (some n.value, m.value, rest)
  | .token (.delim '*') :: .token (.delim '|') :: .token (.ident m) :: rest =>
    some (some "*", m.value, rest)
  | .token (.delim '|') :: .token (.ident m) :: rest => some (some "", m.value, rest)
  | .token (.ident n) :: rest => some (none, n.value, rest)
  | _ => none

def ofParts (ps : List Part) : Option Attribute := do
  let (space, name, rest) ← nameOf (Part.trimLeft ps)
  return ⟨space, name, ← testOf rest⟩

end Attribute

namespace Args

/-- What the brackets of a pseudo-class hold, by its name. -/
inductive Form where
  | wrapped | list | lenient | relatives | compounds | compound | formula | language | word | raw

def formOfClass (name : String) : Form :=
  let name := lower name
  if name = "global" ∨ name = "local" then .wrapped
  else if name = "is" ∨ name = "where" then .lenient
  else if name = "not" ∨ name = "matches" then .list
  else if name ∈ ["-moz-any", "-webkit-any", "current", "past", "future"] then .compounds
  else if name = "has" then .relatives
  else if name = "host" ∨ name = "host-context" then .compound
  else if name ∈ ["nth-child", "nth-last-child", "nth-of-type", "nth-last-of-type", "nth-col",
      "nth-last-col"] then .formula
  else if name = "lang" then .language
  else if name = "dir" then .word
  else .raw

def formOfElement (name : String) : Form :=
  let name := lower name
  if name ∈ ["slotted", "cue", "cue-region"] then .compound
  else if name = "part" ∨ name = "highlight" then .word
  else .raw

def wordOf (ps : List Part) : Option Args :=
  match Part.words ps with
  | [.token (.ident n)] => some (.text (Name.print n.value))
  | _ => none

def languageOf (ps : List Part) : Option String :=
  match Part.words ps with
  | [.token (.ident n)] => some (Name.print n.value)
  | [.token (.string _ w)] => some w
  | _ => none

/-- Reads arguments of a form; `nested` reads the atoms inside. -/
def read (nested : Bool → List Part → Option (List Atom)) (inScope : Bool) (form : Form)
    (ps : List Part) : Option Args :=
  match form with
  | .wrapped =>
    match Part.trim ps with
    | [] => some (.complex (.mk []))
    | ps => do return .complex (← ComplexSelector.ofAtoms true (← nested true ps))
  | .list => do return .list (← ComplexSelector.listOfAtoms inScope (← nested inScope ps))
  | .lenient => some (.lenient ((Part.splitCommas ps).map fun ps =>
    match (nested inScope ps).bind (ComplexSelector.ofAtoms inScope) with
    | some c => .selector c
    | none => .raw (Part.textOf ps)))
  | .relatives => some (.lenient ((Part.splitCommas ps).map fun ps =>
    match (nested inScope ps).bind (Relative.ofAtoms inScope) with
    | some r => .relative r
    | none => .raw (Part.textOf ps)))
  | .compounds => do return .compounds (← Compound.listOfAtoms (← nested inScope ps))
  | .compound => do return .compounds [← Compound.ofAtoms (← nested inScope ps)]
  | .formula => do
    let (shown, rest) ← Formula.read ps
    match Part.trim rest with
    | [] => return .formula shown "" []
    | p :: among =>
      if p.isWord "of" then
        return .formula shown (Name.print (p.ident?.getD ""))
          (← ComplexSelector.listOfAtoms inScope (← nested inScope among))
      else none
  | .language => do
    return .text (", ".intercalate (← (Part.splitCommas ps).mapM languageOf))
  | .word => wordOf ps
  | .raw => some (.text (Part.textOf ps))

end Args

/-- One level of reading; `nested` reads inside brackets. `inScope` says whether a `:global` or
`:local` encloses this level. -/
def atomsStep (nested : Bool → List Part → Option (List Atom)) (inScope : Bool) :
    List Part → Option (List Atom)
  | [] => some []
  | .token (.blank _) :: rest => do return .blank :: (← atomsStep nested inScope rest)
  | .token (.delim '|') :: .token (.delim '|') :: rest => do
    return .combinator .column :: (← atomsStep nested inScope rest)
  | .token (.ident s) :: .token (.delim '|') :: .token (.ident n) :: rest => do
    return .element ⟨some s.value, some n.value⟩ :: (← atomsStep nested inScope rest)
  | .token (.ident s) :: .token (.delim '|') :: .token (.delim '*') :: rest => do
    return .element ⟨some s.value, none⟩ :: (← atomsStep nested inScope rest)
  | .token (.delim '*') :: .token (.delim '|') :: .token (.ident n) :: rest => do
    return .element ⟨some "*", some n.value⟩ :: (← atomsStep nested inScope rest)
  | .token (.delim '*') :: .token (.delim '|') :: .token (.delim '*') :: rest => do
    return .element ⟨some "*", none⟩ :: (← atomsStep nested inScope rest)
  | .token (.delim '|') :: .token (.ident n) :: rest => do
    return .element ⟨some "", some n.value⟩ :: (← atomsStep nested inScope rest)
  | .token (.delim '|') :: .token (.delim '*') :: rest => do
    return .element ⟨some "", none⟩ :: (← atomsStep nested inScope rest)
  | .token (.delim '*') :: rest => do
    return .element ⟨none, none⟩ :: (← atomsStep nested inScope rest)
  | .token (.ident n) :: rest => do
    return .element ⟨none, some n.value⟩ :: (← atomsStep nested inScope rest)
  | .token (.delim '&') :: rest => do return .nesting :: (← atomsStep nested inScope rest)
  | .token (.delim '>') :: rest => do
    return .combinator .child :: (← atomsStep nested inScope rest)
  | .token (.delim '+') :: rest => do
    return .combinator .next :: (← atomsStep nested inScope rest)
  | .token (.delim '~') :: rest => do
    return .combinator .later :: (← atomsStep nested inScope rest)
  | .token (.delim ',') :: rest => do return .comma :: (← atomsStep nested inScope rest)
  | .token (.delim '.') :: .token (.ident n) :: rest => do
    return .simple (.className n.value) :: (← atomsStep nested inScope rest)
  | .token (.hash true n) :: rest => do
    return .simple (.id n.value) :: (← atomsStep nested inScope rest)
  | .block .square inner :: rest => do
    return .simple (.attribute (← Attribute.ofParts inner)) :: (← atomsStep nested inScope rest)
  | .token (.delim ':') :: .token (.delim ':') :: .token (.ident n) :: rest => do
    return .simple (.pseudoElement n.value .absent) :: (← atomsStep nested inScope rest)
  | .token (.delim ':') :: .token (.delim ':') :: .function n ps :: rest => do
    let args ← Args.read nested inScope (Args.formOfElement n.value) ps
    return .simple (.pseudoElement (lower n.value) args) :: (← atomsStep nested inScope rest)
  | .token (.delim ':') :: .token (.ident n) :: rest => do
    return .simple (.pseudoClass n.value .absent) :: (← atomsStep nested inScope rest)
  | .token (.delim ':') :: .function n ps :: rest => do
    let args ← Args.read nested inScope (Args.formOfClass n.value) ps
    return .simple (.pseudoClass (lower n.value) args) :: (← atomsStep nested inScope rest)
  | _ => none

/-- The atoms of parts nested at most `depth` deep. -/
def atoms : Nat → Bool → List Part → Option (List Atom)
  | 0 => fun _ _ => none
  | depth + 1 => atomsStep (atoms depth)

def atomsOf (ps : List Part) : Option (List Atom) := atoms (Part.depthOf ps + 1) false ps

namespace ComplexSelector

def ofParts (ps : List Part) : Option ComplexSelector := do ofAtoms false (← atomsOf ps)

def listOfParts (ps : List Part) : Option (List ComplexSelector) := do listOfAtoms false (← atomsOf ps)

end ComplexSelector

def Relative.listOfParts (ps : List Part) : Option (List Relative) := do
  listOfAtoms false (← atomsOf ps)

end ScopedStyles.Css
