import ScopedStyles.Binary

/-!
# Shortest decimals

A binary number written with the fewest digits that read back as the same number. `shortest` finds
the digits in exact arithmetic; `Decimal.text` writes them positionally while the point stays
within sixteen digits and with an exponent beyond.
-/

namespace ScopedStyles

/-- The number `digits * 10 ^ exponent`. -/
structure Decimal where
  digits : Nat
  exponent : Int
deriving DecidableEq, Repr, Inhabited

namespace Decimal

/-- Numerator and denominator of a scaled power. -/
def ratio (n : Nat) (base : Nat) (e : Int) : Nat × Nat :=
  if e < 0 then (n, Nat.pow base e.natAbs) else (n * Nat.pow base e.natAbs, 1)

/-- A positive number `m * 2 ^ q`, kept as a fraction with the bounds of the reals that round to it. -/
structure Neighbourhood where
  num : Nat
  den : Nat
  low : Nat
  high : Nat
  closed : Bool

/-- All four values over one denominator. -/
def neighbourhood (m : Nat) (q : Int) (lowGapHalved : Bool) (even : Bool) : Neighbourhood :=
  let (n, d) := ratio (4 * m) 2 q
  let (gap, _) := ratio 1 2 q
  { num := n, den := 4 * d, closed := even
    low := n - (if lowGapHalved then gap else 2 * gap), high := n + 2 * gap }

def Neighbourhood.holds (h : Neighbourhood) (digits : Nat) (e : Int) : Bool :=
  let (n, d) := ratio digits 10 e
  let value := n * h.den
  if h.closed then h.low * d ≤ value && value ≤ h.high * d
  else h.low * d < value && value < h.high * d

/-- The number of decimal places before the point, searched from a lower bound. -/
def magnitude (num den : Nat) : Nat → Int → Int
  | 0, e => e
  | k + 1, e =>
    let (n, d) := ratio 1 10 e
    if n * den ≤ num * d then magnitude num den k (e + 1) else e

/-- Tries grids of `n`, `n + 1`, … digits. -/
def onGrid (h : Neighbourhood) (e : Int) : Nat → Nat → Decimal
  | 0, n => ⟨h.num / h.den, n⟩
  | k + 1, n =>
    let unit := e - n
    let (un, ud) := ratio 1 10 unit
    let down := h.num * ud / (h.den * un)
    let below := h.holds down unit
    let above := h.holds (down + 1) unit
    if below && above then
      if 2 * (h.num * ud) ≤ (2 * down + 1) * (h.den * un) then ⟨down, unit⟩ else ⟨down + 1, unit⟩
    else if below then ⟨down, unit⟩
    else if above then ⟨down + 1, unit⟩
    else onGrid h e k (n + 1)

/-- The shortest decimal of a positive number. -/
def ofBinary (b : Binary) : Decimal :=
  let lowGapHalved := b.significand = Binary.full && Binary.leastExponent < b.exponent
  let h := neighbourhood b.significand b.exponent lowGapHalved (b.significand % 2 = 0)
  onGrid h (magnitude h.num h.den 700 (-330)) 18 1

/-- Drops the zeros at the end of the digits. -/
def trim : Nat → Decimal → Decimal
  | 0, d => d
  | k + 1, d => if d.digits % 10 = 0 ∧ d.digits ≠ 0 then trim k ⟨d.digits / 10, d.exponent + 1⟩ else d

/-- Digits with a point when it falls within the first sixteen places or at most four zeros before
them; an exponent otherwise. -/
def text (d : Decimal) : String :=
  let d := trim 400 d
  let ds := (Nat.toDigits 10 d.digits)
  let point := (ds.length : Int) + d.exponent
  if 0 ≤ d.exponent ∧ point ≤ 16 then
    String.ofList (ds ++ List.replicate d.exponent.toNat '0') ++ ".0"
  else if 0 < point ∧ point ≤ 16 then
    String.ofList (ds.take point.toNat) ++ "." ++ String.ofList (ds.drop point.toNat)
  else if -5 < point ∧ point ≤ 0 then
    "0." ++ String.ofList (List.replicate point.natAbs '0' ++ ds)
  else
    let head := String.ofList (ds.take 1)
    let tail := String.ofList (ds.drop 1)
    let sign := if point < 1 then "" else "+"
    head ++ (if tail = "" then "" else "." ++ tail) ++ "e" ++ sign ++ toString (point - 1)

/-- The shortest text of a number that is not negative. -/
def textOf (b : Binary) : String := if b.significand = 0 then "0.0" else (ofBinary b).text

end Decimal

end ScopedStyles
