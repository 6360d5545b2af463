import ScopedStyles.Inlining
import ScopedStyles.Text.Blank

/-!
# The plugin

A compiler that hands over one program after another keeps one plugin. The plugin's processor lasts
as long as the configuration stays the same, so a stylesheet that several programs refer to is
processed once.
-/

namespace ScopedStyles

structure Plugin where
  /-- The processor at work and the configuration it was made for. -/
  current : Option (Config × Processor)
deriving Inhabited

namespace Plugin

def fresh : Plugin := ⟨none⟩

/-- The configuration in the text given to the plugin. Without a text the default one is taken, and
with a wrong one too, but that is told. -/
def configOf (text : Option String) : Config × List Event :=
  match text with
  | none => (.default, [])
  | some text =>
    if text.toList.all Text.isBlank then (.default, [])
    else match Config.ofJson text with
      | .ok c => (c, [])
      | .error e => (.default, [.badConfig e])

/-- The processor for a configuration: the current one if it was made for it. -/
def processorFor (p : Plugin) (c : Config) : Processor :=
  match p.current with
  | some (c', processor) => if c' = c then processor else .ofConfig c
  | none => .ofConfig c

/-- Inlines the class maps of a program and gives the disk and the events that come of it. -/
def apply (p : Plugin) (c : Config) (program : Script.Program) (file : String) (disk : Disk) :
    Script.Program × Inlining × Plugin :=
  let (program, r) := program.inlineMaps (.start ⟨file⟩ (.start disk (p.processorFor c)) none)
  (program, r, ⟨some (c, r.build.processor)⟩)

end Plugin

end ScopedStyles
