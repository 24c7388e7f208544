/-!
# Quotients in decimals

A quotient is rounded to 53 significant bits first and to decimals then; both times to
the nearest neighbour, and to the even one of two that are equally near.
-/

namespace CallTargets.Decimal

/-- The quotient to the nearest natural number, a half to the even neighbour. -/
def roundDiv (num den : Nat) : Nat :=
  let q := num / den
  let r := num % den
  if den < 2 * r || (2 * r = den && q % 2 = 1) then q + 1 else q

def scale (num den : Nat) (power : Int) : Nat × Nat :=
  if 0 ≤ power then (num <<< power.toNat, den) else (num, den <<< (-power).toNat)

/-- The power of two that gives a positive fraction 53 bits before the point. -/
def significantPower (num den : Nat) : Int :=
  let power : Int := 52 + den.log2 - num.log2
  let (n, d) := scale num den power
  if n < d <<< 52 then power + 1 else power

def roundBits (num den : Nat) : Nat × Nat :=
  if num = 0 then (0, 1)
  else
    let power := significantPower num den
    let (n, d) := scale num den power
    scale (roundDiv n d) 1 (-power)

/-- A natural number of so many parts of a whole, given by their number of places. -/
def fixedText (places n : Nat) : String :=
  let part := toString (n % Nat.pow 10 places)
  toString (n / Nat.pow 10 places) ++ "." ++ "".pushn '0' (places - part.length) ++ part

/-- A quotient with so many decimals; the quotient by zero counts as zero. -/
def quotientText (places num den : Nat) : String :=
  if den = 0 then fixedText places 0
  else
    let (n, d) := roundBits num den
    fixedText places (roundDiv (n * Nat.pow 10 places) d)

end CallTargets.Decimal
