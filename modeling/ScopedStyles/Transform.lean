import ScopedStyles.Inlining
import ScopedStyles.Script.Printer
import ScopedStyles.Script.Reader
import ScopedStyles.SourceMap

/-!
# Transforming a source

`Transform.run` reads a module, inlines the class maps of its stylesheets and writes it again, with a
source map if one is asked for.
-/

namespace ScopedStyles

namespace Script

/-- The extensions that a file may use, by its name: those of types, of markup, or both. -/
def Language.ofFile (name : String) : Language :=
  let ends (s : String) : Bool := s.toList.isSuffixOf name.toList
  if ends ".tsx" then ⟨true, true⟩
  else if ends ".ts" || ends ".mts" || ends ".cts" then ⟨true, false⟩
  else ⟨false, true⟩

end Script

structure Transformed where
  code : String
  sourceMap : Option SourceMap
  replacements : List Replacement
deriving DecidableEq, Repr, Inhabited

namespace Transform

/-- What is said of a source that is no module of its language. -/
def malformed (file : String) : String := "failed to parse " ++ file ++ ": "

/-- The sources with the module itself as the first one. -/
def sourcesOf (file source : String) : Sources :=
  (Sources.empty.add (Path.text ⟨file⟩) (String.ofList (Script.Program.withoutMark source))).2

/-- None if the source cannot be read. -/
def run (source file : String) (mapped : Bool) (b : Build) : Option (Transformed × Build) := do
  let (program, comments) ← Script.Program.read (.ofFile file) .module source
  let (program, r) := program.inlineMaps (.start ⟨file⟩ b (some (sourcesOf file source)))
  let (code, marks) := program.layout.write comments
  let inlined := r.replacements.map Replacement.path
  let map := if mapped then r.sources.map fun all => SourceMap.ofMarks all inlined marks else none
  return (⟨code, map, r.replacements⟩, r.build)

end Transform

end ScopedStyles
