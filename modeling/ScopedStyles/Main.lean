import ScopedStyles.CommandLine.Run

/-!
# The program

`main` takes the files below the working directory as a disk, lets `CommandLine.call` work on it,
and writes back what has changed.
-/

namespace ScopedStyles.Main

def contentsOf (bytes : ByteArray) : Contents :=
  match String.fromUTF8? bytes with
  | some s => .text s
  | none => .binary bytes.toList

def bytesOf : Contents → ByteArray
  | .text s => s.toUTF8
  | .binary bs => ⟨bs.toArray⟩

/-- Takes in what stands at a place and below it. -/
partial def load (place : Place) (d : Disk) : IO Disk := do
  let path := (Disk.pathOf place).text
  let real ← IO.FS.realPath path
  if real.toString ≠ path then return d.put place (.link ⟨real.toString⟩)
  else if ← real.isDir then
    let entries ← real.readDir
    entries.foldlM (fun d e => load (place ++ [Bytes.ofText e.fileName]) d) (d.put place .directory)
  else return d.put place (.file (contentsOf (← IO.FS.readBinFile path)))

/-- The disk with the directories above a place. -/
def withParents (place : Place) (d : Disk) : Disk :=
  (List.range place.length).foldl (fun d n => d.put (place.take n) .directory) d

/-- Writes the entries of a disk that another one does not have. -/
def store (before after : Disk) : IO Unit := do
  for (place, e) in after.entries do
    if before.entry? place ≠ some e then
      let path := (Disk.pathOf place).text
      match e with
      | .directory => IO.FS.createDirAll path
      | .file c => IO.FS.writeBinFile path (bytesOf c)
      | .link _ => pure ()

end ScopedStyles.Main

open ScopedStyles in
def main (args : List String) : IO UInt32 := do
  let base := (Disk.steps ⟨(← IO.currentDir).toString⟩).filter isName
  let empty := Disk.empty base fun _ h => (List.mem_filter.1 h).2
  let before ← Main.load base (Main.withParents base empty)
  let r := CommandLine.call args before
  Main.store before r.disk
  IO.print r.stdout
  (← IO.getStderr).putStr (CommandLine.report r.chain)
  return r.code.toUInt32
