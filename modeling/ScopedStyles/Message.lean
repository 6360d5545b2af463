/-!
# What stages report

A stage reports a class map or a warning. `ClassMap` keeps the pairs in the order in which the
names were first met; `classMapOf` finds the map that the scoping stage reported.
-/

namespace ScopedStyles

/-- Pairs of a class name as written and its scoped name, each name once. -/
structure ClassMap where
  pairs : List (String × String)
deriving DecidableEq, Repr, Inhabited

namespace ClassMap

def empty : ClassMap := ⟨[]⟩

def get? (m : ClassMap) (name : String) : Option String := m.pairs.lookup name

def setPair (name value : String) : List (String × String) → List (String × String)
  | [] => [(name, value)]
  | (n, v) :: rest => if n = name then (n, value) :: rest else (n, v) :: setPair name value rest

/-- A known name keeps its place and takes the new value; a new one goes to the end. -/
def insert (m : ClassMap) (name value : String) : ClassMap := ⟨setPair name value m.pairs⟩

def ofPairs (pairs : List (String × String)) : ClassMap :=
  pairs.foldl (fun m (n, v) => m.insert n v) empty

end ClassMap

inductive Report where
  | exports (map : ClassMap)
  | warning (text : String)
deriving DecidableEq, Repr, Inhabited

structure Message where
  stage : String
  report : Report
deriving DecidableEq, Repr, Inhabited

/-- The map that a message of the given stage exports. -/
def Message.exportsOf? (m : Message) (stage : String) : Option ClassMap :=
  match m.report with
  | .exports map => if m.stage = stage then some map else none
  | .warning _ => none

/-- The stage whose exports are the class map of a stylesheet. -/
def scopingStage : String := "css-modules"

/-- The first class map exported by the scoping stage. -/
def classMapOf? (messages : List Message) : Option ClassMap :=
  messages.findSome? (·.exportsOf? scopingStage)

end ScopedStyles
