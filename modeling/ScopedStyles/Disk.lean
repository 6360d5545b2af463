import ScopedStyles.Path

/-!
# Disks

A disk maps absolute places to files, directories and links. `Disk.locate` finds the place that a
path leads to; it follows at most forty links. Reading and writing go through it, so a link and
its target are one file. Two places never hold one file: there are no hard links.
-/

namespace ScopedStyles

/-- What a file holds: text, or bytes that are no text. -/
inductive Contents where
  | text (s : String)
  | binary (bytes : List UInt8)
deriving DecidableEq, Repr, Inhabited

inductive Entry where
  | file (contents : Contents)
  | directory
  | link (target : Path)
deriving DecidableEq, Repr, Inhabited

open ScopedStyles.Path (slash dot)

/-- Names from the root downwards. -/
abbrev Place := List Bytes

/-- Places too may be written as texts. -/
instance : Coe (List String) Place := ⟨List.map Bytes.ofText⟩

/-- What a place may hold: bytes with no slash among them that do not ask for a move. -/
def isName (s : Bytes) : Bool := s ≠ [] && s ≠ [dot] && s ≠ [dot, dot] && !s.contains slash

/-- Entries by place, with the place that relative paths start from. The root is always there. -/
structure Disk where
  base : Place
  entries : List (Place × Entry)
  base_names : ∀ s ∈ base, isName s
deriving Repr

instance : Inhabited Disk := ⟨⟨[], [], by simp⟩⟩

namespace Disk

inductive Fault where
  | notFound | alreadyExists | notDirectory | isDirectory | nameTooLong | linkLoop | notText | badName
deriving DecidableEq, Repr, Inhabited

def Fault.message : Fault → String
  | notFound => "No such file or directory (os error 2)"
  | alreadyExists => "File exists (os error 17)"
  | notDirectory => "Not a directory (os error 20)"
  | isDirectory => "Is a directory (os error 21)"
  | nameTooLong => "File name too long (os error 36)"
  | linkLoop => "Too many levels of symbolic links (os error 40)"
  | notText => "stream did not contain valid UTF-8"
  | badName => "file name contained an unexpected NUL byte"

def empty (base : Place) (names : ∀ s ∈ base, isName s := by decide) : Disk := ⟨base, [], names⟩

def entry? (d : Disk) (place : Place) : Option Entry :=
  if place = [] then some .directory else d.entries.lookup place

def setEntry (place : Place) (e : Entry) : List (Place × Entry) → List (Place × Entry)
  | [] => [(place, e)]
  | (p, old) :: rest => if p = place then (p, e) :: rest else (p, old) :: setEntry place e rest

def put (d : Disk) (place : Place) (e : Entry) : Disk :=
  { d with entries := setEntry place e d.entries }

def remove (d : Disk) (place : Place) : Disk :=
  { d with entries := d.entries.filter (·.1 ≠ place) }

/-- The absolute path of a place. -/
def pathOf (place : Place) : Path := ⟨slash :: Path.joinSlash place⟩

/-- The steps that a path takes; a slash at its end asks for a directory. -/
def steps (p : Path) : List Bytes :=
  let rec clean : List Bytes → List Bytes
    | [] => []
    | [[]] => [[dot]]
    | s :: rest => if s = [] then clean rest else s :: clean rest
  match p.pieces with
  | [[]] => []
  | pieces => clean pieces

/-- No name has more bytes than this. -/
def maxName : Nat := 255

/-- No path has as many bytes as this. -/
def maxPath : Nat := 4096

/-- Takes steps from a place, handing over to `jump` at a link. Where `create` is set the last name
may be missing. -/
def walk (d : Disk) (create : Bool) (jump : Place → List Bytes → Except Fault Place) :
    Place → List Bytes → Except Fault Place
  | here, [] => .ok here
  | here, s :: rest =>
    match d.entry? here with
    | some .directory =>
      if maxName < s.length then .error .nameTooLong
      else if s = [dot] then walk d create jump here rest
      else if s = [dot, dot] then walk d create jump here.dropLast rest
      else
        let next := here ++ [s]
        match d.entry? next with
        | none => if create && rest.isEmpty then .ok next else .error .notFound
        | some (.link target) =>
          jump (if target.isAbsolute then [] else here) (steps target ++ rest)
        | some _ => walk d create jump next rest
    | _ => .error .notDirectory

/-- Takes steps with a number of links still to be followed. -/
def follow (d : Disk) (create : Bool) : Nat → Place → List Bytes → Except Fault Place
  | 0 => fun _ _ => .error .linkLoop
  | k + 1 => d.walk create (follow d create k)

def maxLinks : Nat := 40

def locateWith (d : Disk) (create : Bool) (p : Path) : Except Fault Place :=
  if p.bytes.contains 0 then .error .badName
  else if p.bytes = [] then .error .notFound
  else if maxPath ≤ p.bytes.length then .error .nameTooLong
  else d.follow create (maxLinks + 1) (if p.isAbsolute then [] else d.base) (steps p)

/-- The place that a path leads to, links resolved. -/
def locate (d : Disk) (p : Path) : Except Fault Place := d.locateWith false p

def readAt (d : Disk) (place : Place) : Except Fault Contents :=
  match d.entry? place with
  | some (.file c) => .ok c
  | some .directory => .error .isDirectory
  | _ => .error .notFound

def read (d : Disk) (p : Path) : Except Fault Contents := do d.readAt (← d.locate p)

def asText : Contents → Except Fault String
  | .text s => .ok s
  | .binary _ => .error .notText

def readText (d : Disk) (p : Path) : Except Fault String := do asText (← d.read p)

def isDirectory (d : Disk) (p : Path) : Bool :=
  match d.locate p with
  | .ok place => d.entry? place = some .directory
  | .error _ => false

/-- Writes a file, a new one if there is none. -/
def write (d : Disk) (p : Path) (c : Contents) : Except Fault Disk := do
  let place ← d.locateWith true p
  match d.entry? place with
  | some .directory => .error .isDirectory
  | _ => .ok (d.put place (.file c))

/-- Makes a directory inside one that is there; it may be there already. What stands in its place,
a link that leads nowhere too, is in the way. -/
def makeDirectory (d : Disk) (done : List Path.Component) (c : Path.Component) : Except Fault Disk :=
  if d.isDirectory (Path.ofComponents (done ++ [c])) then .ok d
  else do
    let above ← if done.isEmpty then pure d.base else d.locate (Path.ofComponents done)
    let place := above ++ [c.bytes]
    if maxName < c.bytes.length then .error .nameTooLong
    else match d.entry? place with
      | none => .ok (d.put place .directory)
      | some _ => .error .alreadyExists

/-- What is wrong with a path that goes through something that is no directory. -/
def blocked (d : Disk) (p : Path) : Fault :=
  match d.locate p with
  | .ok _ => .notDirectory
  | .error .linkLoop => .linkLoop
  | .error _ => .alreadyExists

/-- Makes the directories named by each longer part of a path. -/
def makeEach (d : Disk) (done : List Path.Component) : List Path.Component → Except Fault Disk
  | [] => .ok d
  | c :: rest => do
    let here := done ++ [c]
    match d.makeDirectory done c with
    | .ok d => makeEach d here rest
    | .error .alreadyExists =>
      .error (if rest.isEmpty then .alreadyExists else d.blocked (Path.ofComponents here))
    | .error e => .error e

/-- Makes a directory and those above it. -/
def makeDirectories (d : Disk) (p : Path) : Except Fault Disk :=
  if p.bytes.contains 0 then .error .badName else d.makeEach [] p.components

/-- Removes what a path names, without following a link at its end. -/
def delete (d : Disk) (place : Place) : Disk := d.remove place

/-- The files below a place by the names below it, as they are shown. -/
def filesBelow (d : Disk) (top : Place) : List (List String × Contents) :=
  d.entries.filterMap fun (place, e) =>
    match e with
    | .file c =>
      if top.isPrefixOf place then some ((place.drop top.length).map Bytes.text, c) else none
    | _ => none

end Disk

end ScopedStyles
