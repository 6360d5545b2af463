import ScopedStyles.Css.Token

/-!
# Position formulas

The argument of `:nth-child` and its kin: `odd`, `even`, or a step times `n` and an offset.
`Formula.read` takes a formula from the start of some parts and gives its shortest text. A number
that is not whole loses what stands behind its point.
-/

namespace ScopedStyles.Css.Formula

/-- The nearest number of 32 bits. -/
def clamp (n : Int) : Int := max (-2147483648) (min n 2147483647)

def digits (ds : List Char) : Nat := ds.foldl (fun n d => 10 * n + (d.toNat - 48)) 0

/-- An exponent as written, a number far out of range standing for all others. -/
def exponentOf (cs : List Char) : Int :=
  match cs with
  | '-' :: ds => -((min (digits ds) 1000 : Nat) : Int)
  | '+' :: ds => (min (digits ds) 1000 : Nat)
  | ds => (min (digits ds) 1000 : Nat)

/-- The whole part of a number. -/
def wholePart (written : String) : Int :=
  let (negative, cs) := match written.toList with
    | '-' :: cs => (true, cs)
    | '+' :: cs => (false, cs)
    | cs => (false, cs)
  let (mantissa, exponent) := cs.span fun c => c ≠ 'e' && c ≠ 'E'
  let (whole, fraction) := mantissa.span (· ≠ '.')
  let fraction := fraction.drop 1
  let shift := exponentOf (exponent.drop 1) - fraction.length
  let n := digits (whole ++ fraction)
  let n := if 0 ≤ shift then n * Nat.pow 10 shift.toNat else n / Nat.pow 10 (-shift).toNat
  clamp (if negative then -(n : Int) else n)

def stepText (a : Int) : String := if a = 1 then "n" else if a = -1 then "-n" else toString a ++ "n"

def offsetText (b : Int) : String := if b < 0 then toString b else "+" ++ toString b

/-- The offset behind `n`: a signed number, a sign and a number, or nothing. -/
def offset (ps : List Part) : Option (String × List Part) :=
  match Part.trimLeft ps with
  | .token (.number n) :: rest => some (offsetText (wholePart n.written), rest)
  | .token (.delim c) :: rest =>
    if c = '+' || c = '-' then
      match Part.trimLeft rest with
      | .token (.number n) :: rest =>
        some (offsetText (if c = '-' then -wholePart n.written else wholePart n.written), rest)
      | _ => none
    else some ("", ps)
  | _ => some ("", ps)

/-- What stands behind the step: `n`, perhaps with a part of the offset in the same word. -/
def afterStep (a : Int) (word : List Char) (rest : List Part) : Option (String × List Part) :=
  match word with
  | [n] => if n = 'n' || n = 'N' then do
      let (b, rest) ← offset rest
      return (stepText a ++ b, rest)
    else none
  | [n, '-'] =>
    if n = 'n' || n = 'N' then
      match Part.trimLeft rest with
      | .token (.number b) :: rest => some (stepText a ++ offsetText (-wholePart b.written), rest)
      | _ => none
    else none
  | n :: '-' :: ds =>
    if (n = 'n' || n = 'N') && ds.all Char.isDigit then
      some (stepText a ++ offsetText (clamp (-(digits ds : Int))), rest)
    else none
  | _ => none

/-- A step that is written as a name alone: one, or minus one behind a hyphen. -/
def ofName (name : Name) (rest : List Part) : Option (String × List Part) :=
  match name.value.toList with
  | '-' :: cs => afterStep (-1) cs rest
  | cs => afterStep 1 cs rest

def read (ps : List Part) : Option (String × List Part) :=
  match Part.trimLeft ps with
  | .token (.ident n) :: rest =>
    if lower n.value = "odd" ∨ lower n.value = "even" then some (Name.print n.value, rest)
    else ofName n rest
  | .token (.delim '+') :: .token (.ident n) :: rest => ofName n rest
  | .token (.dimension n unit) :: rest => afterStep (wholePart n.written) unit.value.toList rest
  | .token (.number n) :: rest => some (toString (wholePart n.written), rest)
  | _ => none

end ScopedStyles.Css.Formula
