import ScopedStyles.Css.Sheet
import ScopedStyles.Message

/-!
# Discarding empty rules

A rule goes when nothing is left in its block once the empty rules in it are gone. Keyframes, raw
text and statements stay. `run` warns of the number of rules removed.
-/

namespace ScopedStyles.Discarding

open Css

mutual

/-- What is left of a rule, and the number of rules removed with it. -/
def rule : Rule → Option Rule × Nat
  | .style target block =>
    match items block with
    | ([], n) => (none, n + 1)
    | (rest, n) => (some (.style target rest), n)
  | .atBlock name start block =>
    match items block with
    | ([], n) => (none, n + 1)
    | (rest, n) => (some (.atBlock name start rest), n)
  | .statement name start => (some (.statement name start), 0)

def items : List Item → List Item × Nat
  | [] => ([], 0)
  | .rule r :: rest =>
    match rule r, items rest with
    | (some r, n), (kept, m) => (.rule r :: kept, n + m)
    | (none, n), (kept, m) => (kept, n + m)
  | .declaration d :: rest =>
    let (kept, n) := items rest
    (.declaration d :: kept, n)
  | .keyframe selectors block :: rest =>
    let (kept, n) := items rest
    (.keyframe selectors block :: kept, n)
  | .raw text :: rest =>
    let (kept, n) := items rest
    (.raw text :: kept, n)

end

def rules : List Rule → List Rule × Nat
  | [] => ([], 0)
  | r :: rest =>
    match rule r, rules rest with
    | (some r, n), (kept, m) => (r :: kept, n + m)
    | (none, n), (kept, m) => (kept, n + m)

def stageName : String := "discard-empty"

def warning (removed : Nat) : Message :=
  ⟨stageName, .warning ("removed " ++ toString removed ++ " empty rule(s)")⟩

/-- The sheet without empty rules, and a warning if there were any. -/
def run (sheet : Sheet) : Sheet × List Message :=
  let (rs, n) := rules sheet.rules
  (⟨rs⟩, if n = 0 then [] else [warning n])

end ScopedStyles.Discarding
