import ScopedStyles.Css.Sheet
import ScopedStyles.Message
import ScopedStyles.Naming

/-!
# Scoping class names

Every class of a sheet takes its scoped name, and the class map records each name when it is first
met. Selectors inside `:global(...)` keep their names and those inside `:local(...)` do not; both
wrappers are dissolved into the compound around them.
-/

namespace ScopedStyles.Scoping

open Css

/-- Where the names of a sheet come from. -/
structure Scope where
  naming : Naming
  path : Path

/-- A change that takes note of the classes it renames. -/
abbrev Renaming (α : Type) := StateM ClassMap α

/-- The scoped name of a class, recorded when it is new. -/
def Scope.rename (s : Scope) (name : String) : Renaming String := fun map =>
  match map.get? name with
  | some known => (known, map)
  | none =>
    let fresh := s.naming.scopedName s.path name
    (fresh, map.insert name fresh)

inductive Wrapper where
  | global | local_
deriving DecidableEq, Repr, Inhabited

/-- The wrapper that a pseudo-class of this name is. -/
def Wrapper.ofName? (name : String) : Option Wrapper :=
  let name := lower name
  if name = "global" then some .global
  else if name = "local" then some .local_
  else none

/-- Adds a compound behind children that are kept the last one first. Two compounds with no
combinator between them are one. -/
def push (c : Compound) : List Child → List Child
  | .compound d :: rest =>
    .compound (.mk (d.nesting || c.nesting) (d.element.or c.element)
      (d.conditions ++ c.conditions)) :: rest
  | out => .compound c :: out

/-- Adds children one after the other. -/
def pushAll : List Child → List Child → List Child
  | [], out => out
  | .compound c :: rest, out => pushAll rest (push c out)
  | .combinator k :: rest, out => pushAll rest (.combinator k :: out)

/-- Adds what stands before the conditions of a compound that has conditions. -/
def pushHead (nesting : Bool) (element : Option Element) (out : List Child) : List Child :=
  if nesting || element.isSome then push (.mk nesting element []) out else out

mutual

def simple (s : Scope) : Simple → Renaming Simple
  | .id n => return .id n
  | .className n => return .className (← s.rename n)
  | .attribute a => return .attribute a
  | .pseudoClass n a => return .pseudoClass n (← args s a)
  | .pseudoElement n a => return .pseudoElement n (← args s a)

def args (s : Scope) : Args → Renaming Args
  | .absent => return .absent
  | .text t => return .text t
  | .complex c => return .complex (← complex s c)
  | .compounds cs => return .compounds (← compounds s cs)
  | .list cs => return .list (← complexes s cs)
  | .lenient ms => return .lenient (← members s ms)
  | .formula f joint cs => return .formula f joint (← complexes s cs)

def members (s : Scope) : List Member → Renaming (List Member)
  | [] => return []
  | .selector c :: ms => do
    let c ← complex s c
    return .selector c :: (← members s ms)
  | .relative (.mk k c) :: ms => do
    let c ← complex s c
    return .relative (.mk k c) :: (← members s ms)
  | .raw t :: ms => do return .raw t :: (← members s ms)

/-- A compound that stands alone in brackets keeps its wrappers. -/
def compound (s : Scope) : Compound → Renaming Compound
  | .mk n e cs => return .mk n e (← simples s cs)

def compounds (s : Scope) : List Compound → Renaming (List Compound)
  | [] => return []
  | c :: cs => do
    let c ← compound s c
    return c :: (← compounds s cs)

def simples (s : Scope) : List Simple → Renaming (List Simple)
  | [] => return []
  | c :: cs => do
    let c ← simple s c
    return c :: (← simples s cs)

def complex (s : Scope) : ComplexSelector → Renaming ComplexSelector
  | .mk cs => do return .mk (← children s cs []).reverse

/-- Children behind those done already, which are kept the last one first. -/
def children (s : Scope) : List Child → List Child → Renaming (List Child)
  | [], out => return out
  | .combinator k :: rest, out => children s rest (.combinator k :: out)
  | .compound (.mk n e []) :: rest, out => children s rest (push (.mk n e []) out)
  | .compound (.mk n e (c :: cs)) :: rest, out => do
    children s rest (← conditions s (c :: cs) (pushHead n e out))

/-- The conditions of a compound, wrappers dissolved, behind the children done already. -/
def conditions (s : Scope) : List Simple → List Child → Renaming (List Child)
  | [], out => return out
  | .pseudoClass n (.complex inner) :: rest, out => do
    match Wrapper.ofName? n with
    | some .global => conditions s rest (pushAll inner.children out)
    | some .local_ => do
      let inner ← complex s inner
      conditions s rest (pushAll inner.children out)
    | none => do
      let inner ← complex s inner
      conditions s rest (push (.mk false none [.pseudoClass n (.complex inner)]) out)
  | c :: rest, out => do
    let c ← simple s c
    conditions s rest (push (.mk false none [c]) out)

def complexes (s : Scope) : List ComplexSelector → Renaming (List ComplexSelector)
  | [] => return []
  | c :: cs => do
    let c ← complex s c
    return c :: (← complexes s cs)

end

def relatives (s : Scope) : List Relative → Renaming (List Relative)
  | [] => return []
  | .mk k c :: rs => do
    let c ← complex s c
    return .mk k c :: (← relatives s rs)

def target (s : Scope) : Target → Renaming Target
  | .selectors list => return .selectors (← complexes s list)
  | .relatives list => return .relatives (← relatives s list)

def pieces (s : Scope) : List Piece → Renaming (List Piece)
  | [] => return []
  | .text t :: ps => do return .text t :: (← pieces s ps)
  | .selector c :: ps => do
    let c ← complex s c
    return .selector c :: (← pieces s ps)

def start (s : Scope) : Prelude → Renaming Prelude
  | .known ps => return .known (← pieces s ps)
  | p => return p

mutual

def rule (s : Scope) : Rule → Renaming Rule
  | .style t block => do
    let t ← target s t
    return .style t (← items s block)
  | .atBlock n p block => do
    let p ← start s p
    return .atBlock n p (← items s block)
  | .statement n p => return .statement n (← start s p)

def item (s : Scope) : Item → Renaming Item
  | .declaration d => return .declaration d
  | .rule r => return .rule (← rule s r)
  | .keyframe selectors block => return .keyframe selectors (← items s block)
  | .raw t => return .raw t

def items (s : Scope) : List Item → Renaming (List Item)
  | [] => return []
  | i :: rest => do
    let i ← item s i
    return i :: (← items s rest)

end

def rules (s : Scope) : List Rule → Renaming (List Rule)
  | [] => return []
  | r :: rest => do
    let r ← rule s r
    return r :: (← rules s rest)

/-- The sheet with its classes renamed, and the message that exports the class map. -/
def run (naming : Naming) (path : Path) (sheet : Sheet) : Sheet × Message :=
  let (rs, map) := (rules ⟨naming, path⟩ sheet.rules).run ClassMap.empty
  (⟨rs⟩, ⟨scopingStage, .exports map⟩)

end ScopedStyles.Scoping
