import ScopedStyles.Script.Layout.Statement

/-!
# Layouts of imports, exports and markup

An import that names nothing is written as one for its effects.
-/

namespace ScopedStyles.Script.Layout

/-! ## Imports and exports -/

def names (s : Span) (ps : List Part) : Layout :=
  say "\x7b " ++ (if ps.isEmpty then [] else inLine s Part.plain ps ++ space) ++ say "\x7d"

def source (s : Span) (source attributes : Part) : Layout :=
  source.plain ++ after " with " attributes attributes.plain ++ say ";" ++ atEnd s

def isNamed (p : Part) : Bool :=
  match p.kind with
  | .importNamed _ => true
  | _ => false

/-- What is imported: first what has a name of its own, then the list in braces. -/
def clause (s : Span) (ps : List Part) : Layout :=
  let single := ps.filter (!isNamed ·)
  let listed := ps.filter isNamed
  if ps.isEmpty then []
  else joined (say ", ") (single.map Part.plain ++ (if listed.isEmpty then [] else [names s listed])) ++
    say " from "

def importLayout (s : Span) (typeOnly : Bool) (phase : Phase) (ps : List Part) (from_ att : Part) :
    Layout :=
  let word := match phase with
    | .evaluation => ""
    | .source => "source "
    | .deferred => "defer "
  opened s ++ say ("import " ++ (if typeOnly then "type " else "") ++ word) ++ clause s ps ++
    source s from_ att

def exportNamed (s : Span) (typeOnly : Bool) (ps : List Part) (from_ att : Part) : Layout :=
  let listed := match ps with
    | [p] => match p.kind with
      | .exportNamespace => p.plain
      | _ => names s ps
    | ps => names s ps
  opened s ++ say "export " ++ on typeOnly "type " ++ listed ++
    if from_.isAbsent then say ";" ++ atEnd s else say " from " ++ source s from_ att

/-- The layout of an import or export without the end of its line; none for other nodes. -/
def item (k : Kind) (s : Span) (ks : List Part) : Option Layout :=
  match k, ks with
  | .importDecl t phase, [ps, from_, att] => some (importLayout s t phase ps.kids from_ att)
  | .importNamed t, [name, other] =>
    let whole := if other.isAbsent then name.plain
      else other.plain ++ say " as " ++ name.plain
    some (opened s ++ on t "type " ++ whole ++ atEnd s)
  | .importDefault, [name] => some name.plain
  | .importNamespace, [name] => some (say "* as " ++ name.plain)
  | .exportDecl, [d] => some (opened s ++ say "export " ++ d.plain ++ atEnd s)
  | .exportNamed t, [ps, from_, att] => some (exportNamed s t ps.kids from_ att)
  | .exportSpecifier t, [name, other] =>
    some (opened s ++ on t "type " ++ name.plain ++ after " as " other other.plain ++ atEnd s)
  | .exportNamespace, [name] => some (opened s ++ say "* as " ++ name.plain ++ atEnd s)
  | .exportDefaultDecl, [d] => some (opened s ++ say "export default " ++ d.plain)
  | .exportDefaultExpr, [e] => some (opened s ++ say "export default " ++ e.whole ++ say ";" ++ atEnd s)
  | .exportAll t, [from_, att] =>
    some (opened s ++ say "export " ++ on t "type " ++ say "* from " ++ source s from_ att)
  | .exportAssignment, [e] => some ([.leading s.lo] ++ say "export = " ++ e.whole)
  | .namespaceExport, [name] =>
    some ([.leading s.lo] ++ say "export as namespace " ++ name.plain ++ say ";")
  | .importEquals e t, [name, ref] =>
    some ([.leading s.lo] ++ on e "export " ++ say "import " ++ on t "type " ++ name.plain ++
      say " = " ++ ref.plain ++ say ";")
  | .externalModule, [from_] => some ([.leading s.lo] ++ say "require(" ++ from_.plain ++ say ")")
  | _, _ => none

/-! ## Markup -/

def children (ps : List Part) : Layout := (ps.map Part.plain).flatten

/-- The layout of markup; none for other nodes. -/
def markup (k : Kind) (s : Span) (ks : List Part) : Option Layout :=
  let unmarked (l : Layout) : Option Layout := some (.leading s.lo :: l)
  match k, ks with
  | .element, [opening, cs, closing] =>
    unmarked (opening.plain ++ children cs.kids ++ closing.plain)
  | .fragment, [cs] => unmarked (say "<>" ++ children cs.kids ++ say "</>")
  | .opening selfClosing, [name, attrs, targs] =>
    let inner := if attrs.kids.isEmpty then [] else space ++ row s none space Part.plain attrs.kids
    unmarked (say "<" ++ name.plain ++ targs.plain ++ inner ++ say (if selfClosing then "/>" else ">"))
  | .closing, [name] => unmarked (say "</" ++ name.plain ++ say ">")
  | .attribute, [name, value] => unmarked (name.plain ++ after "=" value value.plain)
  | .spreadAttribute, [e] => some (say "\x7b" ++ e.plain ++ say "\x7d")
  | .container, [e] =>
    unmarked (say "\x7b" ++ [.trailing (s.lo + 1) true] ++
      (match e.kind with
        | .emptyExpr => [.leading e.lo]
        | _ => e.whole) ++ say "\x7d")
  | .spreadChild, [e] => unmarked (say "\x7b..." ++ e.whole ++ say "\x7d")
  | .markupText w, _ => some (marked s w)
  | .memberName, [l, r] => unmarked (l.plain ++ say "." ++ r.plain)
  | .namespacedName, [l, r] => unmarked (l.plain ++ say ":" ++ r.plain)
  | _, _ => none

end ScopedStyles.Script.Layout
