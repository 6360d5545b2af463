import ScopedStyles.Build
import ScopedStyles.Script.Node
import ScopedStyles.SourceMap.Source
import ScopedStyles.Specifier

/-!
# Inlining class maps

A module refers to a stylesheet by a namespace import or by a call of `require`. `Node.inlineMaps`
replaces each reference whose stylesheet can be processed by the class map as an object, and notes
the specifier of the processed stylesheet; `Program.inlineMaps` puts loads of those behind the
directives at the top. A reference that cannot be replaced is left as it is.
-/

namespace ScopedStyles

open Script

/-- A reference that was replaced. -/
structure Replacement where
  specifier : String
  path : Path
  classMap : ClassMap
deriving DecidableEq, Repr, Inhabited

/-- What the work on one source knows and gathers. -/
structure Inlining where
  file : Path
  build : Build
  /-- The sources of the positions, if positions are asked for. -/
  sources : Option Sources
  /-- The loads that wait for their place at the top. -/
  hoisted : List String
  replacements : List Replacement
deriving Inhabited

namespace Inlining

def start (file : Path) (build : Build) (sources : Option Sources) : Inlining :=
  ⟨file, build, sources, [], []⟩

def tell (r : Inlining) (e : Event) : Inlining := { r with build := r.build.tell e }

def hoist (r : Inlining) (specifier : String) : Inlining :=
  { r with hoisted := r.hoisted ++ [specifier] }

def takeHoisted (r : Inlining) : List String × Inlining :=
  (r.hoisted, { r with hoisted := [] })

/-! ## Objects of class names -/

def startsWith (needle text : List Char) : Bool := needle.isPrefixOf text

/-- Where a text occurs first in another one, counted in bytes. -/
def offsetOf? (needle : List Char) : Nat → List Char → Option Nat
  | n, [] => if needle.isEmpty then some n else none
  | n, c :: cs => if startsWith needle (c :: cs) then some n else offsetOf? needle (n + c.utf8Size) cs

/-- The first selector of a generated name in the text of a source. -/
def selectorSpan (source : Option Source) (css generated : String) : Span :=
  match source with
  | none => .none
  | some s =>
    let needle := "." ++ generated
    match offsetOf? needle.toList 0 css.toList with
    | some offset => ⟨s.start + offset, s.start + offset + needle.utf8ByteSize⟩
    | none => .none

def classProperty (source : Option Source) (css : String) (pair : String × String) : Node :=
  let span := selectorSpan source css pair.2
  .mk .keyValue .none [Node.text pair.1 span, Node.text pair.2 span]

def classObject (source : Option Source) (css : String) (m : ClassMap) : Node :=
  let span := (source.map Source.span).getD .none
  .mk (.object false) span (m.pairs.map (classProperty source css))

/-- Takes the processed text in among the sources, without its byte order mark if it has one. -/
def register (r : Inlining) (path : Path) (css : String) : Option Source × Inlining :=
  match r.sources with
  | none => (none, r)
  | some all =>
    let (s, all) := all.add path.text (Pipeline.withoutMark css)
    (some s, { r with sources := some all })

/-- The object in place of a reference, if its stylesheet can be processed. -/
def inlineClassNames (specifier : String) (r : Inlining) : Option Node × Inlining :=
  let path := Specifier.resolve specifier r.file
  let (result, build) := r.build.processFile path
  let r := { r with build := build }
  match result with
  | .error failure => (none, r.tell (.leftFailed specifier path failure))
  | .ok output =>
    match output.classMap? with
    | none => (none, r.tell (.leftUnmapped specifier path))
    | some m =>
      let (source, r) := r.register path output.css
      let r := r.hoist (Specifier.sibling specifier)
      let r := { r with replacements := r.replacements ++ [⟨specifier, path, m⟩] }
      (some (classObject source output.css m), r)

end Inlining

namespace Script.Node

/-- The value of a string; one that is no text counts as empty. -/
def stringValue : Node → String
  | mk (.string v _) _ _ => v.getD ""
  | _ => ""

/-- The name bound by an import of a whole module and of nothing else. -/
def namespaceName? : List Node → Option Node
  | [mk .importNamespace _ [name]] => some name
  | _ => none

/-- `var name = object;` in the place of an import. -/
def bind (span : Span) (name object : Node) : Node :=
  .mk (.variables .var_ false) span
    [.mk (.declarator) span [.mk .binding name.span [name, absent], object]]

/-- What a call of `require` loads, if it is written out. -/
def requiredSpecifier? : Node → Option String
  | mk .call _ (mk (.ident "require" _) _ _ :: mk .list _ (arg :: _) :: _) =>
    match arg with
    | mk (.string v _) _ _ => some (v.getD "")
    | mk .template _ [mk .list _ [], mk .list _ [mk (.quasi raw) _ _]] => some raw
    | _ => none
  | _ => none

/-- The replacement of an import. -/
def inlineImport (n : Node) (r : Inlining) : Option Node × Inlining :=
  match n with
  | mk (.importDecl typeOnly _) span (mk .list _ names :: source :: _) =>
    let specifier := source.stringValue
    if !Specifier.isStylesheet specifier then (none, r)
    else match typeOnly, namespaceName? names with
      | false, some name =>
        let (object, r) := r.inlineClassNames specifier
        (object.map (bind span name), r)
      | _, _ => (none, r.tell (.unsupportedForm specifier))
  | _ => (none, r)

/-- The replacement of a call. -/
def inlineCall (n : Node) (r : Inlining) : Option Node × Inlining :=
  match n.requiredSpecifier? with
  | some specifier =>
    if Specifier.isStylesheet specifier then r.inlineClassNames specifier else (none, r)
  | none => (none, r)

def replacement (n : Node) (r : Inlining) : Option Node × Inlining :=
  match n.kind with
  | .importDecl .. => n.inlineImport r
  | .call => n.inlineCall r
  | _ => (none, r)

mutual

/-- The tree with all references replaced that can be; nothing within a replacement is visited. -/
def inlineMaps : Node → Inlining → Node × Inlining
  | mk k s ks, r =>
    match (mk k s ks).replacement r with
    | (some new, r) => (new, r)
    | (none, r) =>
      let (ks, r) := inlineAll ks r
      (mk k s ks, r)

def inlineAll : List Node → Inlining → List Node × Inlining
  | [], r => ([], r)
  | n :: ns, r =>
    let (n, r) := n.inlineMaps r
    let (ns, r) := inlineAll ns r
    (n :: ns, r)

end

/-- `import "specifier";` -/
def loadByImport (specifier : String) : Node :=
  .mk (.importDecl false .evaluation) .none [list [], text specifier .none, absent]

/-- `require("specifier");` -/
def loadByCall (specifier : String) : Node :=
  .mk .exprStmt .none
    [.mk .call .none [name "require" .none, list [text specifier .none], absent]]

end Script.Node

namespace Script.Program

/-- Puts loads behind the directives at the top. -/
def withLoads (p : Program) (specifiers : List String) : Program :=
  let load := if p.isModule then Node.loadByImport else Node.loadByCall
  { p with body := p.body.takeWhile Node.isDirective ++ specifiers.map load ++
      p.body.dropWhile Node.isDirective }

def inlineMaps (p : Program) (r : Inlining) : Program × Inlining :=
  let (body, r) := Node.inlineAll p.body r
  let (specifiers, r) := r.takeHoisted
  (({ p with body := body } : Program).withLoads specifiers, r)

end Script.Program

end ScopedStyles
