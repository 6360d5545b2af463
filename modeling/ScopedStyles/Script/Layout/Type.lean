import ScopedStyles.Script.Layout.Expression

/-!
# Layouts of types

Members of type literals and interfaces have lines of their own and end in semicolons.
-/

namespace ScopedStyles.Script.Layout

def functionType (s : Span) (word : String) (ps tps r : Part) : Layout :=
  [.leading s.lo] ++ say word ++ tps.plain ++ say "(" ++ inLine s Part.plain ps.kids ++
    say ") => " ++ r.plain

/-- The word `new` before its type parameters. -/
def newWord (tps : Part) : String := if tps.isAbsent then "new" else "new "

/-- The braces around members, each with a semicolon. -/
def members (s : Span) (ms : List Part) : Layout :=
  [.leading s.lo] ++ say "\x7b" ++
    (if ms.isEmpty then [.line] else inLines s none (fun m => m.plain ++ say ";") ms) ++ say "\x7d"

/-- The name of a member of a type. -/
def memberKey (key : Part) : Layout :=
  match key.kind with
  | .computed => say "[" ++ (key.kid 0).whole ++ say "]"
  | _ => key.plain

/-- A mark of a mapped type, with its sign. -/
def signedMark (mark : Option String) (word : String) : Layout :=
  match mark with
  | some sign => say (sign ++ word)
  | none => []

/-- How a module is to be loaded, on lines of its own. -/
def importOptions (o : Part) : Layout :=
  if o.isAbsent then []
  else say ", \x7b" ++ [.line, .indent] ++ say "with: " ++ o.plain ++ [.dedent, .line] ++ say "\x7d"

/-- The layout of a type; none for other nodes. -/
def type (k : Kind) (s : Span) (ks : List Part) : Option Layout :=
  let unmarked (l : Layout) : Option Layout := some (.leading s.lo :: l)
  match k, ks with
  | .keywordType w, _ => some (marked s w)
  | .thisType, _ => some (marked s "this")
  | .typeRef, [n, args] => unmarked (n.plain ++ args.plain)
  | .qualifiedName, [l, r] => unmarked (l.plain ++ say "." ++ r.plain)
  | .typeArgs, ts => unmarked (say "<" ++ inLine s Part.plain ts ++ say ">")
  | .typeParams, ps => unmarked (say "<" ++ inLine s Part.plain ps ++ say ">")
  | .typeParam marks, [n, c, d] =>
    unmarked (joined [] (marks.map fun m => say (m ++ " ")) ++ n.plain ++
      after " extends " c c.plain ++ after " = " d d.plain)
  | .typeAnn, [t] => unmarked t.plain
  | .functionType, [ps, tps, r] => some (functionType s "" ps tps r)
  | .constructorType a, [ps, tps, r] =>
    some (functionType s ((if a then "abstract " else "") ++ newWord tps) ps tps r)
  | .typeQuery, [n, args] => unmarked (say "typeof " ++ n.plain ++ args.plain)
  | .typeLiteral, ms => some (members s ms)
  | .arrayType, [t] => unmarked (t.plain ++ say "[]")
  | .tupleType, ts => unmarked (say "[" ++ inLine s Part.plain ts ++ say "]")
  | .tupleElement, [label, t] => unmarked (after "" label (label.whole ++ say ": ") ++ t.plain)
  | .optionalType, [t] => unmarked (t.plain ++ say "?")
  | .restType, [t] => unmarked (say "..." ++ t.plain)
  | .unionType, ts => unmarked (row s (some " |") space Part.plain ts)
  | .intersectionType, ts => unmarked (row s (some " &") space Part.plain ts)
  | .conditionalType, [t, e, y, n] =>
    unmarked (t.plain ++ say " extends " ++ e.plain ++ say " ? " ++ y.plain ++ say " : " ++ n.plain)
  | .inferType, [p] => unmarked (say "infer " ++ p.plain)
  | .parenType, [t] => unmarked (say "(" ++ t.plain ++ say ")")
  | .typeOperator w, [t] => unmarked (say (w ++ " ") ++ t.plain)
  | .indexedType, [o, i] => unmarked (o.plain ++ say "[" ++ i.plain ++ say "]")
  | .mappedType r o, [p, n, t] =>
    unmarked (say "\x7b" ++ [.line, .indent] ++ signedMark r "readonly " ++ say "[" ++
      (p.kid 0).plain ++ say " in " ++ (p.kid 1).plain ++ after " as " n n.plain ++ say "]" ++
      signedMark o "?" ++ annotation t ++ say ";" ++ [.dedent, .line] ++ say "\x7d")
  | .literalType, [l] => unmarked l.plain
  | .templateType, [ts, cs] => unmarked (template oneLineEnd Part.plain ts.kids cs.kids)
  | .typePredicate asserts, [n, t] =>
    unmarked (on asserts "asserts " ++ n.plain ++ after " is " t t.plain)
  | .importType, [source, options, q, args] =>
    unmarked (say "import(" ++ source.plain ++ importOptions options ++ say ")" ++
      after "." q q.plain ++ args.plain)
  | .heritage, [e, args] => unmarked (e.whole ++ args.plain)
  | _, _ => none

/-- The layout of a member of a type without its semicolon; none for other nodes. -/
def typeMember (k : Kind) (s : Span) (ks : List Part) : Option Layout :=
  let unmarked (l : Layout) : Option Layout := some (.leading s.lo :: l)
  match k, ks with
  | .propertySignature r o, [key, ann] =>
    unmarked (on r "readonly " ++ memberKey key ++ on o "?" ++ annotation ann)
  | .methodSignature o, [key, ps, tps, r] =>
    unmarked (memberKey key ++ on o "?" ++ signature s tps ps r)
  | .getterSignature, [key, r] =>
    unmarked (say "get " ++ memberKey key ++ say "()" ++ annotation r)
  | .setterSignature, [key, ps] =>
    unmarked (say "set " ++ memberKey key ++ say "(" ++ inLine s Part.plain ps.kids ++ say ")")
  | .callSignature, [ps, tps, r] =>
    unmarked (signature s tps ps .absent ++ after " : " r r.plain)
  | .constructSignature, [ps, tps, r] => unmarked (say (newWord tps) ++ signature s tps ps r)
  | .indexSignature r _, [p, t] =>
    unmarked (on r "readonly " ++ say "[" ++ inLine s Part.plain [p] ++ say "]" ++ annotation t)
  | _, _ => none

end ScopedStyles.Script.Layout
