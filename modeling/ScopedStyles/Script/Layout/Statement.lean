import ScopedStyles.Script.Layout.Type

/-!
# Layouts of statements

Each statement ends its line, and the body of a block is further in. Heads of loops hug their
parentheses, those of `if` and of loops over values do not.
-/

namespace ScopedStyles.Script.Layout

def isBlock (p : Part) : Bool :=
  match p.kind with
  | .block => true
  | _ => false

def variableList (s : Span) (w : Variable) (isDeclare : Bool) (ds : List Part) : Layout :=
  on isDeclare "declare " ++ say (w.text ++ " ") ++ inLine s Part.plain ds

/-- The first part of a loop's head. -/
def loopHead (p : Part) : Layout :=
  match p.kind, p.kids with
  | .variables w d, ds => opened p.node.span ++ variableList p.node.span w d ds
  | _, _ => p.whole

def ifLayout (s : Span) (test yes no : Part) : Layout :=
  let otherwise :=
    if no.isAbsent then []
    else (if isBlock yes then space else [.line]) ++ say "else " ++ statement no
  opened s ++ say "if (" ++ test.whole ++ say ") " ++ statement yes ++ otherwise

def caseLayout (s : Span) (test : Part) (ss : List Part) : Layout :=
  opened s ++ (if test.isAbsent then say "default" else say "case " ++ test.whole) ++ say ":" ++
    if ss.isEmpty then []
    else [.line, .indent] ++ row s none [.line] statement ss ++ [.dedent]

def switchLayout (s : Span) (e : Part) (cases : List Part) : Layout :=
  opened s ++ say "switch(" ++ e.whole ++ say ")\x7b" ++
    (if cases.isEmpty then [.line] else inLines s none Part.plain cases) ++ beforeEnd s ++
    say "\x7d"

def tryLayout (s : Span) (body handler final : Part) : Layout :=
  opened s ++ say "try " ++ block true body ++
    (if handler.isAbsent then [] else space ++ handler.plain) ++ after " finally" final (block true final)

/-- A statement that is an expression: the comments at its end stand behind its semicolon. -/
def expressionStatement (s : Span) (e : Part) : Layout :=
  let isAtEnd : Piece → Bool := fun
    | .trailing pos _ => pos = s.hi
    | _ => false
  .leading s.lo :: e.whole.filter (!isAtEnd ·) ++ say ";"

/-! ## Declarations of types -/

def moduleBody (p : Part) : Layout :=
  let inner := if p.kids.isEmpty then [.line] else inLines p.node.span none statement p.kids
  .leading p.lo :: say "\x7b" ++ inner ++ say "\x7d"

/-- A namespace from its name on: a body, or a namespace within. -/
def moduleTail (name : Layout) : Part → Layout
  | .mk n l ks =>
    match n.kind, ks with
    | .absent, _ => name
    | .module_ .., [inner, body] => name ++ say "." ++ moduleTail inner.plain body
    | _, ks => name ++ space ++ moduleBody (.mk n l ks)

/-- The layout of a declaration of a type without the end of its line; none for other nodes. -/
def typeDeclaration (k : Kind) (s : Span) (ks : List Part) : Option Layout :=
  let unmarked (l : Layout) : Option Layout := some (.leading s.lo :: l)
  match k, ks with
  | .interface d, [name, tps, parents, body] =>
    unmarked (on d "declare " ++ say "interface " ++ name.plain ++ tps.plain ++
      (if parents.kids.isEmpty then []
        else say " extends " ++ inLine s Part.plain parents.kids) ++ space ++ body.plain)
  | .typeAlias d, [name, tps, t] =>
    unmarked (on d "declare " ++ say "type " ++ name.plain ++ tps.plain ++ say " = " ++ t.plain ++
      say ";")
  | .enum d c, [name, ms] =>
    unmarked (on d "declare " ++ on c "const " ++ say "enum " ++ name.plain ++ say " \x7b" ++
      (if ms.kids.isEmpty then [.line] else inLines s (some ",") Part.plain ms.kids) ++ say "\x7d")
  | .enumMember, [name, value] => unmarked (name.plain ++ after " = " value value.whole)
  | .module_ d isGlobal w, [name, body] =>
    unmarked (on d "declare " ++ (if isGlobal then moduleTail (say "global") body
      else say (w ++ " ") ++ moduleTail name.plain body))
  | _, _ => none

/-- The layout of a statement without the end of its line; none for other nodes. -/
def statement? (k : Kind) (s : Span) (ks : List Part) : Option Layout :=
  match k, ks with
  | .block, _ => some (block true (.mk (.mk k s []) [] ks))
  | .empty, _ => some (opened s ++ say ";")
  | .debugger, _ => some (marked s "debugger" ++ say ";")
  | .with_, [e, body] => some (opened s ++ say "with (" ++ e.whole ++ say ")" ++ statement body)
  | .return_, [e] => some (opened s ++ say "return" ++ after " " e e.whole ++ say ";")
  | .labeled, [l, body] => some (opened s ++ l.plain ++ say ": " ++ statement body)
  | .break_, [l] => some (opened s ++ say "break" ++ after " " l l.plain ++ say ";")
  | .continue_, [l] => some (opened s ++ say "continue" ++ after " " l l.plain ++ say ";")
  | .if_, [t, y, n] => some (ifLayout s t y n)
  | .switch, [e, cases] => some (switchLayout s e cases.kids)
  | .case_, [t, ss] => some (caseLayout s t ss.kids)
  | .throw_, [e] => some (opened s ++ say "throw " ++ e.whole ++ say ";")
  | .try_, [b, h, f] => some (tryLayout s b h f)
  | .catch_, [p, b] =>
    some (opened s ++ say "catch " ++ (if p.isAbsent then [] else say "(" ++ p.whole ++ say ")") ++
      space ++ block true b)
  | .while_, [t, b] => some (opened s ++ say "while(" ++ t.whole ++ say ")" ++ statement b)
  | .doWhile, [t, b] =>
    some (opened s ++ say "do " ++ statement b ++ say "while (" ++ t.whole ++ say ")" ++ atEnd s)
  | .for_, [i, t, u, b] =>
    some (opened s ++ say "for(" ++ loopHead i ++ say ";" ++ after " " t t.whole ++ say ";" ++
      after " " u u.whole ++ say ")" ++ statement b)
  | .forIn, [l, r, b] =>
    some (opened s ++ say "for(" ++ loopHead l ++ say " in " ++ r.whole ++ say ")" ++ statement b)
  | .forOf isAwait, [l, r, b] =>
    some (opened s ++ say "for " ++ on isAwait "await " ++ say "(" ++ loopHead l ++ say " of " ++
      r.whole ++ say ")" ++ statement b)
  | .exprStmt, [e] => some (expressionStatement s e)
  | .variables w d, ds => some (opened s ++ variableList s w d ds ++ say ";")
  | .declarator, [p, value] => some (opened s ++ p.whole ++ after " = " value value.whole)
  | .functionDecl d, [name, f] => some (opened s ++ on d "declare " ++ function name f)
  | .classDecl d a, [name, body] =>
    some (opened s ++ on d "declare " ++ on a "abstract " ++ «class» true s name body)
  | _, _ => none

end ScopedStyles.Script.Layout
