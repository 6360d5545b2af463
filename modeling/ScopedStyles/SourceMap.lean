import ScopedStyles.Json.Writer
import ScopedStyles.Path
import ScopedStyles.Script.Writer
import ScopedStyles.SourceMap.Mappings
import ScopedStyles.SourceMap.Source

/-!
# Source maps

A source map lists the sources that marks of a written script refer to and the places that belong
together. Sources of one name are listed once, where a mark first refers to them; the text of a
source stands in the map if its name is the path of one of the files asked for.
-/

namespace ScopedStyles

structure SourceMap where
  /-- Names, with the texts that stand in the map. -/
  sources : List (String × Option String)
  segments : List Mappings.Segment
deriving DecidableEq, Repr, Inhabited

namespace SourceMap

def empty : SourceMap := ⟨[], []⟩

/-- Whether a name is the path of one of some files, written this way or another. -/
def namesOne (files : List Path) (name : String) : Bool :=
  files.any fun p => p.components = Path.components ⟨name⟩

/-- The place of a name in the list, which it may extend. -/
def addSource (m : SourceMap) (inlined : List Path) (s : Source) : Nat × SourceMap :=
  match m.sources.findIdx? fun (name, _) => name = s.name with
  | some i => (i, m)
  | none =>
    let text := if namesOne inlined s.name then some s.text else none
    (m.sources.length, { m with sources := m.sources ++ [(s.name, text)] })

/-- Adds a mark; `current` is the source that the mark before belongs to. -/
def addMark (sources : Sources) (inlined : List Path) :
    Option (Source × Nat) × SourceMap → Script.Mark → Option (Source × Nat) × SourceMap
  | (current, m), mark =>
    let (current, m) :=
      if current.any fun (s, _) => s.holds mark.pos then (current, m)
      else match sources.find? mark.pos with
        | some s =>
          let (i, m) := m.addSource inlined s
          (some (s, i), m)
        | none => (none, m)
    match current with
    | none => (none, m)
    | some (s, i) =>
      match s.place? mark.pos with
      | none => (current, m)
      | some (line, column) =>
        (current, { m with segments := ⟨mark.line, mark.column, i, line, column⟩ :: m.segments })

/-- The map of some marks, with the texts of the files asked for. -/
def ofMarks (sources : Sources) (inlined : List Path) (marks : List Script.Mark) : SourceMap :=
  let m := (marks.foldl (addMark sources inlined) (none, empty)).2
  { m with segments := m.segments.reverse }

def toJson (m : SourceMap) : Json.Value :=
  let texts := if m.sources.any (·.2.isSome) then
      [("sourcesContent", Json.Value.list (m.sources.map fun (_, text) =>
        (text.map Json.Value.string).getD .null))]
    else []
  .object ([("version", .number "3"), ("sources", .list (m.sources.map fun (name, _) => .string name))]
    ++ texts ++ [("names", .list []), ("mappings", .string (Mappings.encode m.segments))])

end SourceMap

end ScopedStyles
