/-!
# Numbers of 53 binary digits

`Binary.round?` takes a fraction to the nearest number `significand * 2 ^ exponent` that has at most
53 digits and an exponent of its range, a tie going to the even significand. Products and quotients
of such numbers are rounded the same way.
-/

namespace ScopedStyles

/-- The number `significand * 2 ^ exponent`. -/
structure Binary where
  significand : Nat
  exponent : Int
deriving DecidableEq, Repr, Inhabited

namespace Binary

/-- The least significand of full length. -/
def full : Nat := 4503599627370496

def leastExponent : Int := -1074

def greatestExponent : Int := 971

def zero : Binary := ⟨0, leastExponent⟩

/-- The numerator and denominator of `num / den` in units of `2 ^ e`. -/
def inUnits (num den : Nat) (e : Int) : Nat × Nat :=
  if e < 0 then (num * Nat.pow 2 e.natAbs, den) else (num, den * Nat.pow 2 e.natAbs)

/-- The whole number nearest to a fraction, a tie going to the even one. -/
def nearest (num den : Nat) : Nat :=
  let down := num / den
  let rest := num % den
  if 2 * rest < den ∨ (2 * rest = den ∧ down % 2 = 0) then down else down + 1

/-- The exponent of a fraction whose significand has full length, or the least one. -/
def exponentOf (num den : Nat) : Int :=
  let e : Int := (Nat.log2 num : Int) - Nat.log2 den - 52
  let (n, d) := inUnits num den e
  max leastExponent (if n < full * d then e - 1 else e)

/-- The nearest number, if there is one in range. -/
def round? (num den : Nat) : Option Binary :=
  if num = 0 then some zero
  else
    let e := exponentOf num den
    let (n, d) := inUnits num den e
    let m := nearest n d
    let (m, e) := if m = 2 * full then (full, e + 1) else (m, e)
    if greatestExponent < e then none else some ⟨m, e⟩

/-- Numerator and denominator. -/
def fraction (b : Binary) : Nat × Nat :=
  if b.exponent < 0 then (b.significand, Nat.pow 2 b.exponent.natAbs)
  else (b.significand * Nat.pow 2 b.exponent.natAbs, 1)

def mul? (a b : Binary) : Option Binary :=
  round? (a.fraction.1 * b.fraction.1) (a.fraction.2 * b.fraction.2)

def div? (a b : Binary) : Option Binary :=
  round? (a.fraction.1 * b.fraction.2) (a.fraction.2 * b.fraction.1)

/-- The greatest power of ten that is scaled by in one step. -/
def greatestPower : Nat := 308

/-- A number scaled by powers of ten, each step rounded, as long as it stays in range. -/
def scale? : Nat → Binary → Int → Option Binary
  | 0, b, _ => some b
  | k + 1, b, e =>
    if b.significand = 0 then some b
    else if e.natAbs ≤ greatestPower then do
      let power ← round? (Nat.pow 10 e.natAbs) 1
      if 0 ≤ e then b.mul? power else b.div? power
    else if 0 ≤ e then none
    else do
      let b ← b.div? (← round? (Nat.pow 10 greatestPower) 1)
      scale? k b (e + greatestPower)

/-- The number `digits * 10 ^ e`, if it is in range. Scaling three times leaves nothing of a number
that is too small. -/
def ofScaled? (digits : Nat) (e : Int) : Option Binary := do
  (← round? digits 1).scale? 4 e

end Binary

end ScopedStyles
