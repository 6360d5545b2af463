import ScopedStyles.Json.Reader
import ScopedStyles.Json.Writer
import ScopedStyles.Naming

/-!
# Configurations

A configuration is the list of stages that every stylesheet passes through. `Config.ofJson` reads
it from JSON, a stage without a pattern taking the default one and a configuration without stages
the default stage; `Config.toJson` writes it.
-/

namespace ScopedStyles

inductive StageConfig where
  | scopeClasses (pattern : String)
  | discardEmpty
deriving DecidableEq, Repr, Inhabited

structure Config where
  stages : List StageConfig
deriving DecidableEq, Repr, Inhabited

namespace StageConfig

def scopeClassesName : String := "css-modules"
def discardEmptyName : String := "discard-empty"

def name : StageConfig → String
  | scopeClasses _ => scopeClassesName
  | discardEmpty => discardEmptyName

def toJson : StageConfig → Json.Value
  | scopeClasses pattern =>
    .object [("name", .string scopeClassesName), ("pattern", .string pattern)]
  | discardEmpty => .object [("name", .string discardEmptyName)]

/-- The kind of stage that a name stands for. -/
inductive Kind where
  | scopeClasses | discardEmpty
deriving DecidableEq, Repr, Inhabited

open Json Json.Reader

def kindOf (name : String) : Reader Kind :=
  if name = scopeClassesName then return .scopeClasses
  else if name = discardEmptyName then return .discardEmpty
  else failData (.unknownVariant name [scopeClassesName, discardEmptyName])

def kind : Reader Kind := do
  match ← blanks with
  | none => failAhead .eofValue
  | some '"' => placed do
    skip
    kindOf (← string)
  | some _ => wrongType "variant identifier"

def expectedStage : String := "internally tagged enum StageConfig"

/-- A field of a stage: its kind, or something kept for later. -/
def field (depth : Nat) (kindSeen : Bool) (key : String) : Reader (Kind ⊕ (String × Content)) := do
  if key = "name" then
    if kindSeen then failData (.duplicateField "name")
    else
      colon
      return .inl (← kind)
  else
    colon
    return .inr (key, ← content depth)

/-- The fields of a stage, its kind found among them. -/
def stageFields (depth : Nat) : Nat → Bool → Option Kind → Reader (Option Kind × List (String × Content))
  | 0, _, found => return (found, [])
  | fuel + 1, first, found => do
    if ← moreKeys first then
      skip
      let key ← string
      match ← field depth found.isSome key with
      | .inl k => stageFields depth fuel false (some k)
      | .inr f =>
        let (found, rest) ← stageFields depth fuel false found
        return (found, f :: rest)
    else return (found, [])

/-- A stage as an object: the kind and the other fields in order. -/
def ofObject (depth : Nat) : Reader (Kind × List (String × Content) ⊕ Kind × List Content) := do
  let (found, rest) ← stageFields depth (← remaining) true none
  match found with
  | some k => return .inl (k, rest)
  | none => failData (.missingField "name")

/-- A stage as a list: the kind first, then what else it holds. -/
def ofList (depth : Nat) : Reader (Kind × List (String × Content) ⊕ Kind × List Content) := do
  if ← moreItems true then
    let k ← kind
    let rest ← items (content depth) (← remaining) false
    return .inr (k, rest)
  else failData (.missingField "name")

def patternText (c : Content) : Reader String :=
  match c with
  | .string s => return s
  | c => failData (.invalidType c.found "a string")

/-- The pattern among the fields, written at most once. -/
def patternField : List (String × Content) → Option String → Reader String
  | [], found => return found.getD Naming.defaultPattern
  | (key, c) :: rest, found => do
    if key = "pattern" then
      if found.isSome then failData (.duplicateField "pattern")
      else patternField rest (some (← patternText c))
    else patternField rest found

def ofFields : Kind × List (String × Content) ⊕ Kind × List Content → Reader StageConfig
  | .inl (.scopeClasses, fields) => do return .scopeClasses (← patternField fields none)
  | .inl (.discardEmpty, _) => return .discardEmpty
  | .inr (.scopeClasses, []) => return .scopeClasses Naming.defaultPattern
  | .inr (.scopeClasses, [c]) => do return .scopeClasses (← patternText c)
  | .inr (.scopeClasses, c :: rest) => do
    let _ ← patternText c
    failData (.invalidLength (rest.length + 1) 1)
  | .inr (.discardEmpty, []) => return .discardEmpty
  | .inr (.discardEmpty, rest) => failData (.invalidLength rest.length 0)

/-- One stage; `depth` levels of brackets are left. -/
def read (depth : Nat) : Reader StageConfig := do
  match ← blanks with
  | none => failAhead .eofValue
  | some '[' =>
    ofFields (← placed (bracket depth (ofList (depth - 1)) endList))
  | some '{' =>
    ofFields (← placed (bracket depth (ofObject (depth - 1)) endObject))
  | some 'n' | some 't' | some 'f' | some '-' | some '"' => wrongType expectedStage
  | some c => if isDigit c then wrongType expectedStage else failAhead .expectedValue

end StageConfig

namespace Config

open Json Json.Reader

def default : Config := ⟨[.scopeClasses Naming.defaultPattern]⟩

def maxDepth : Nat := 128

/-- The list of stages; `depth` levels of brackets are left. -/
def stageList (depth : Nat) : Reader (List StageConfig) := do
  match ← blanks with
  | none => failAhead .eofValue
  | some '[' =>
    let n ← remaining
    placed (bracket depth (items (StageConfig.read (depth - 1)) n true) endList)
  | some _ => wrongType "a sequence"

/-- The fields of a configuration; those it does not know are skipped. -/
def configFields (depth : Nat) :
    Nat → Bool → Option (List StageConfig) → Reader (Option (List StageConfig))
  | 0, _, found => return found
  | fuel + 1, first, found => do
    if ← moreKeys first then
      skip
      let key ← string
      if key = "stages" then
        if found.isSome then failData (.duplicateField "stages")
        else
          colon
          configFields depth fuel false (some (← stageList depth))
      else
        colon
        skipValue
        configFields depth fuel false found
    else return found

def read : Reader Config := do
  match ← blanks with
  | none => failAhead .eofValue
  | some '[' => placed (bracket maxDepth (do
      if ← moreItems true then return ⟨← stageList (maxDepth - 1)⟩ else return default) endList)
  | some '{' => placed (bracket maxDepth (do
      match ← configFields (maxDepth - 1) (← remaining) true none with
      | some stages => return ⟨stages⟩
      | none => return default) endObject)
  | some _ => wrongType "struct ProcessorConfig"

def ofJson (text : String) : Except Json.Error Config := Reader.run read text

def toJson (c : Config) : String :=
  (Json.Value.object [("stages", .list (c.stages.map StageConfig.toJson))]).pretty

end Config

end ScopedStyles
