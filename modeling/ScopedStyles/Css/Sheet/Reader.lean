import ScopedStyles.Css.Sheet

/-!
# Reading style sheets

Parts are cut into rules and declarations; the brackets are matched already, so a block is one
part and reading it is one level less deep. Inside a style rule declarations come before rules,
whatever their order in the text.
-/

namespace ScopedStyles.Css.Sheet

/-- What a block holds. -/
inductive Inside where
  | rules | style | page | declarations | keyframes | features | raw
deriving DecidableEq, Repr, Inhabited

/-- How the prelude and the block of an at-rule are read; a prelude may have to know whether there
is a block. -/
structure Form where
  start : Bool → List Part → Option Prelude
  inside : Inside

/-- Conditions keep declarations apart from rules only where a style rule is around them. -/
def conditional (place : Inside) : Inside := if place = .style then .style else .rules

/-- Boxes at the margins of a page. -/
def isMarginBox (name : String) : Bool :=
  name ∈ ["top-left-corner", "top-left", "top-center", "top-right", "top-right-corner",
    "bottom-left-corner", "bottom-left", "bottom-center", "bottom-right", "bottom-right-corner",
    "left-top", "left-middle", "left-bottom", "right-top", "right-middle", "right-bottom"]

/-- Variants of glyphs that a font names. -/
def isFeatureValue (name : String) : Bool :=
  name ∈ ["stylistic", "historical-forms", "styleset", "character-variant", "swash", "ornaments",
    "annotation"]

/-- The form of an at-rule that stands at a place, if it has one there. -/
def formOf (place : Inside) (name : String) : Option Form :=
  let name := lower name
  let form : (List Part → Option Prelude) → Inside → Option Form := fun start inside =>
    some ⟨fun _ => start, inside⟩
  if name = "media" then form Prelude.mediaOf (conditional place)
  else if name = "supports" then form (fun ps => (Query.supports ps).map .known) (conditional place)
  else if name = "container" then
    form (fun ps => (Query.container ps).map .known) (conditional place)
  else if name = "starting-style" then form Prelude.noneOf (conditional place)
  else if name = "layer" then some ⟨Prelude.layerOf, .rules⟩
  else if name = "scope" then form Prelude.scopeOf .rules
  else if name = "document" ∨ name = "-moz-document" then form Prelude.documentOf .rules
  else if name = "nest" then
    form (fun ps => (ComplexSelector.listOfParts ps).map (.known ∘ Piece.selectors)) .style
  else if name ∈ ["keyframes", "-webkit-keyframes", "-moz-keyframes", "-o-keyframes",
      "-ms-keyframes", "-khtml-keyframes"] then form Prelude.animationName .keyframes
  else if name = "page" then form Prelude.pageOf .page
  else if name ∈ ["font-face", "viewport", "-ms-viewport", "-o-viewport"] ∨
      (place = .page ∧ isMarginBox name) ∨ (place = .features ∧ isFeatureValue name) then
    form Prelude.noneOf .declarations
  else if name = "counter-style" then form Prelude.word .declarations
  else if name ∈ ["property", "font-palette-values"] then form Prelude.customName .declarations
  else if name = "color-profile" then
    form (fun ps => (Prelude.customName ps).or (Prelude.word ps)) .declarations
  else if name = "font-feature-values" then form Prelude.familiesOf .features
  else if name = "import" then form Prelude.importOf .raw
  else if name = "charset" then form Prelude.charsetOf .raw
  else if name = "namespace" then form Prelude.namespaceOf .raw
  else if name = "value" then form Prelude.refused .raw
  else if name = "custom-media" then form Prelude.customMediaOf .raw
  else none

/-- A prelude, the block behind it if there is one, and the parts behind both. -/
def splitBlock : List Part → List Part × Option (List Part) × List Part
  | [] => ([], none, [])
  | .token (.delim ';') :: rest => ([], none, rest)
  | .block .curly inner :: rest => ([], some inner, rest)
  | p :: rest =>
    let (start, inner, others) := splitBlock rest
    (p :: start, inner, others)

/-- The parts of a declaration and those behind it. -/
def splitDeclaration : List Part → List Part × List Part
  | [] => ([], [])
  | .token (.delim ';') :: rest => ([], rest)
  | p :: rest =>
    let (mine, others) := splitDeclaration rest
    (p :: mine, others)

/-- Reads the members of a block. -/
abbrev BlockReader := Inside → List Part → Option (List Item)

/-- What an at-rule is, given the place where it stands, its name, its prelude and its block. -/
def atRule (block : BlockReader) (place : Inside) (name : Name) (start : List Part)
    (inner : Option (List Part)) : Option Rule :=
  let shown := Name.printAny name.value
  match formOf place name.value, inner with
  | some form, some inner => do
    return .atBlock shown (← form.start true start) (← block form.inside inner)
  | some form, none => do return .statement shown (← form.start false start)
  | none, some inner => do
    return .atBlock shown (.raw (Part.textOf start)) (← block .raw inner)
  | none, none => some (.statement shown (.raw (Part.textOf start)))

/-- What a style rule applies to; inside another rule it may start with a combinator. -/
def targetOf (nested : Bool) (ps : List Part) : Option Target :=
  if nested then (Relative.listOfParts ps).map .relatives
  else (ComplexSelector.listOfParts ps).map .selectors

def styleRule (block : BlockReader) (nested : Bool) (ps : List Part) : Option (Rule × List Part) :=
  match splitBlock ps with
  | (start, some inner, rest) => do
    return (.style (← targetOf nested start) (← block .style inner), rest)
  | _ => none

/-- A list of rules. -/
def ruleList (block : BlockReader) (top : Bool) : Nat → List Part → Option (List Rule)
  | 0, _ => none
  | _ + 1, [] => some []
  | k + 1, .token (.blank _) :: ps => ruleList block top k ps
  | k + 1, .token (.atKeyword name) :: ps => do
    let (start, inner, rest) := splitBlock ps
    return (← atRule block .rules name start inner) :: (← ruleList block top k rest)
  | k + 1, p :: ps =>
    match top, p with
    | true, .token .commentOpen => ruleList block top k ps
    | true, .token .commentClose => ruleList block top k ps
    | _, _ => do
      let (rule, rest) ← styleRule block false (p :: ps)
      return rule :: (← ruleList block top k rest)

/-- The declarations and the rules of a style rule's block. -/
def styleItems (block : BlockReader) : Nat → List Part → Option (List Item × List Item)
  | 0, _ => none
  | _ + 1, [] => some ([], [])
  | k + 1, .token (.blank _) :: ps => styleItems block k ps
  | k + 1, .token (.delim ';') :: ps => styleItems block k ps
  | k + 1, .token (.atKeyword name) :: ps => do
    let (start, inner, rest) := splitBlock ps
    let rule ← atRule block .style name start inner
    let (ds, rs) ← styleItems block k rest
    return (ds, .rule rule :: rs)
  | k + 1, .token (.ident n) :: ps => do
    let (mine, rest) := splitDeclaration (.token (.ident n) :: ps)
    let d ← Declaration.ofParts mine
    let (ds, rs) ← styleItems block k rest
    return (.declaration d :: ds, rs)
  | k + 1, ps => do
    let (rule, rest) ← styleRule block true ps
    let (ds, rs) ← styleItems block k rest
    return (ds, .rule rule :: rs)

/-- Declarations and at-rules between them. -/
def declarations (block : BlockReader) (place : Inside) : Nat → List Part → Option (List Item)
  | 0, _ => none
  | _ + 1, [] => some []
  | k + 1, .token (.blank _) :: ps => declarations block place k ps
  | k + 1, .token (.delim ';') :: ps => declarations block place k ps
  | k + 1, .token (.atKeyword name) :: ps => do
    let (start, inner, rest) := splitBlock ps
    return .rule (← atRule block place name start inner) :: (← declarations block place k rest)
  | k + 1, ps => do
    let (mine, rest) := splitDeclaration ps
    return .declaration (← Declaration.ofParts mine) :: (← declarations block place k rest)

def keyframeSelector (ps : List Part) : Option String :=
  match Part.trim ps with
  | [.token (.percentage n)] => some (n.written ++ "%")
  | [.token (.ident n)] =>
    if lower n.value = "from" ∨ lower n.value = "to" then some (Name.print n.value) else none
  | _ => none

def keyframes (block : BlockReader) : Nat → List Part → Option (List Item)
  | 0, _ => none
  | _ + 1, [] => some []
  | k + 1, .token (.blank _) :: ps => keyframes block k ps
  | k + 1, ps =>
    match splitBlock ps with
    | (start, some inner, rest) => do
      let selectors ← (Part.splitCommas start).mapM keyframeSelector
      return .keyframe selectors (← block .declarations inner) :: (← keyframes block k rest)
    | _ => none

/-- One level of reading a block. -/
def blockStep (block : BlockReader) : BlockReader := fun inside ps =>
  let k := ps.length + 1
  match inside with
  | .rules => do return (← ruleList block false k ps).map .rule
  | .style => do
    let (ds, rs) ← styleItems block k ps
    return ds ++ rs
  | .page | .features | .declarations => declarations block inside k ps
  | .keyframes => keyframes block k ps
  | .raw =>
    match ps with
    | [] => some []
    | ps => some [.raw (Part.textOf ps)]

/-- Blocks nested at most `depth` deep. -/
def blocks : Nat → BlockReader
  | 0 => fun _ _ => none
  | depth + 1 => blockStep (blocks depth)

def ofParts (ps : List Part) : Option Sheet := do
  return ⟨← ruleList (blocks (Part.depthOf ps + 1)) true (ps.length + 1) ps⟩

/-- The sheet that a text holds, if the whole of it is well formed. -/
def read (text : String) : Option Sheet := do ofParts (← Part.scan text)

end ScopedStyles.Css.Sheet
