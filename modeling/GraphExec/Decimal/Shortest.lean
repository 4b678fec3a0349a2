/-!
# The fewest digits that read back

A finite binary floating-point value stands for an interval of real numbers: all those that
round to it. `Binary.shortest` finds the decimal with the fewest digits in that interval, of two
such decimals the one nearer to the value. All arithmetic is exact and on natural numbers.
-/

namespace GraphExec.Decimal

/-- A finite non-negative double, `m * 2 ^ q`. -/
structure Binary where
  /-- The significand. -/
  m : Nat
  /-- The exponent of two. -/
  q : Int
  /-- The gap to the value below is half the gap to the value above. -/
  narrowBelow : Bool

/-- Decodes the bits of a finite value; the sign is ignored. -/
def Binary.ofBits (bits : UInt64) : Binary :=
  let exponent := ((bits >>> 52) &&& 0x7FF).toNat
  let fraction := (bits &&& 0xFFFFFFFFFFFFF).toNat
  if exponent == 0 then ⟨fraction, -1074, false⟩
  else ⟨Nat.pow 2 52 + fraction, (exponent : Int) - 1075, fraction == 0 && exponent > 1⟩

/-- A decimal, `digits * 10 ^ exponent`. -/
structure Scaled where
  /-- The digits, read as one number. -/
  digits : Nat
  /-- The exponent of ten. -/
  exponent : Int
deriving DecidableEq, Repr

/-- Compares `a * 10 ^ i` with `n * 2 ^ j`, exactly. -/
def compareScaled (a : Nat) (i : Int) (n : Nat) (j : Int) : Ordering :=
  compare (a * Nat.pow 10 i.toNat * Nat.pow 2 (-j).toNat)
    (n * Nat.pow 2 j.toNat * Nat.pow 10 (-i).toNat)

/-- Whether a decimal lies among the reals that round to the value, to nearest and ties to even. -/
def Binary.readsBack (x : Binary) (d : Scaled) : Bool :=
  let low := if x.narrowBelow then 4 * x.m - 1 else 4 * x.m - 2
  let high := 4 * x.m + 2
  let closed := x.m % 2 == 0
  let atLow := compareScaled d.digits d.exponent low (x.q - 2)
  let atHigh := compareScaled d.digits d.exponent high (x.q - 2)
  (atLow == .gt || (closed && atLow == .eq)) && (atHigh == .lt || (closed && atHigh == .eq))

/-- The greatest multiple of `10 ^ e` that is at most the value, counted in that unit. -/
def Binary.floorAt (x : Binary) (e : Int) : Nat :=
  (x.m * Nat.pow 2 x.q.toNat * Nat.pow 10 (-e).toNat) /
    (Nat.pow 2 (-x.q).toNat * Nat.pow 10 e.toNat)

/-- Of the two neighbours of the value on the grid of `10 ^ e`, the one that reads back. -/
def Binary.onGrid (x : Binary) (e : Int) : Option Scaled :=
  let below := x.floorAt e
  let lower : Scaled := ⟨below, e⟩
  let upper : Scaled := ⟨below + 1, e⟩
  match x.readsBack lower, x.readsBack upper with
  | false, false => none
  | true, false => some lower
  | false, true => some upper
  | true, true =>
    -- Twice the value against the sum of the two; an exact tie goes to the even one.
    match compareScaled (2 * below + 1) e (2 * x.m) x.q with
    | .gt => some lower
    | .lt => some upper
    | .eq => some (if below % 2 == 0 then lower else upper)

/-- The number of decimal digits of a natural number. -/
def digitCount (n : Nat) : Nat :=
  (Nat.toDigits 10 n).length

/-- The least `k` with `value < 10 ^ k`, for a value that is not zero. -/
def Binary.magnitude (x : Binary) : Int :=
  if 0 ≤ x.q then digitCount (x.m * Nat.pow 2 x.q.toNat)
  else
    -- Scale up by a power of ten that leaves no fraction digit behind.
    let shift := (-x.q).toNat
    (digitCount (x.m * Nat.pow 5 shift) : Int) - shift

/-- Drops trailing zeros of the digits; `fuel` bounds their number. -/
def Scaled.strip (fuel : Nat) (d : Scaled) : Scaled :=
  match fuel with
  | 0 => d
  | fuel + 1 =>
    if d.digits ≠ 0 ∧ d.digits % 10 = 0 then
      Scaled.strip fuel ⟨d.digits / 10, d.exponent + 1⟩
    else d

/-- The decimal with the fewest digits that reads back to the value. -/
def Binary.shortest (x : Binary) : Scaled :=
  if x.m = 0 then ⟨0, 0⟩
  else
    let k := x.magnitude
    let grids := (List.range 17).map fun n => k - (n + 1 : Nat)
    -- The exact value stands in should no grid of up to seventeen digits hold a hit.
    let exact : Scaled :=
      if 0 ≤ x.q then ⟨x.m * Nat.pow 2 x.q.toNat, 0⟩ else ⟨x.m * Nat.pow 5 (-x.q).toNat, x.q⟩
    let found := (grids.findSome? x.onGrid).getD exact
    found.strip (digitCount found.digits)

end GraphExec.Decimal
