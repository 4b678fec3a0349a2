import GraphExec.Decimal.Shortest

/-!
# Numbers

A number is an integer or a double, as its text says: `1` and `1.0` are different numbers.
Integers reach from the least signed to the greatest unsigned 64-bit integer; beyond that range,
and for `-0`, the text stands for a double.
-/

namespace GraphExec

/-- A number of a document, a response or a variable. -/
inductive Number where
  /-- An integer of 64 bits, signed or unsigned. -/
  | int (n : Int)
  /-- A finite double. -/
  | float (x : Float)
deriving Repr, Inhabited

namespace Number

/-- Whether a double is written positionally, by the decimal exponent of its leading digit: from a
hundred-thousandth up to, but not including, `10 ^ 16`. -/
def isPositional (leading : Int) : Bool :=
  -5 ≤ leading && leading < 16

/-- A run of zeros. -/
def zeros (n : Nat) : String :=
  String.ofList (List.replicate n '0')

/-- Lays out a decimal: positional with at least one decimal, else with a signed exponent. -/
def layout (d : Decimal.Scaled) : String :=
  let digits := toString d.digits
  let size : Int := digits.length
  let leading := d.exponent + size - 1
  if d.digits = 0 then "0.0"
  else if isPositional leading then
    if 0 ≤ d.exponent then digits ++ zeros d.exponent.toNat ++ ".0"
    else if 0 ≤ leading then
      let whole := (leading + 1).toNat
      String.ofList (digits.toList.take whole) ++ "." ++ String.ofList (digits.toList.drop whole)
    else "0." ++ zeros (-leading - 1).toNat ++ digits
  else
    let first := String.ofList (digits.toList.take 1)
    let rest := String.ofList (digits.toList.drop 1)
    let mantissa := if rest.isEmpty then first else first ++ "." ++ rest
    let sign := if 0 ≤ leading then "+" else "-"
    mantissa ++ "e" ++ sign ++ toString leading.natAbs

/-- The text of a finite double: the fewest digits that read back. -/
def floatText (x : Float) : String :=
  let bits := x.toBits
  let sign := if bits >>> 63 = 1 then "-" else ""
  sign ++ layout (Decimal.Binary.ofBits bits).shortest

/-- The text of a number. -/
def text : Number → String
  | int n => toString n
  | float x => floatText x

/-- The number as a double. -/
def toFloat : Number → Float
  | int n => Float.ofInt n
  | float x => x

/-- Whether the integer is in the range of the integers. -/
def inRange (n : Int) : Bool :=
  -9223372036854775808 ≤ n && n ≤ 18446744073709551615

/-- The greatest integer that a leading run of digits may reach. -/
def greatestWhole : Nat := 18446744073709551615

/-- Appends decimal digits to a number as long as the result fits 64 bits; the digits left over. -/
def accumulate : Nat → List Nat → Nat × List Nat
  | n, [] => (n, [])
  | n, d :: rest =>
    if n * 10 + d ≤ greatestWhole then accumulate (n * 10 + d) rest else (n, d :: rest)

/-- A power of ten as a double. -/
def powerOfTen (e : Nat) : Float :=
  Float.ofScientific 1 false e

/-- Divides by a power of ten, beyond the greatest finite power in several steps. -/
def scaleDown (x : Float) (e : Nat) : Float :=
  if 308 < e then
    if x == 0 then x else scaleDown (x / powerOfTen 308) (e - 308)
  else x / powerOfTen e
termination_by e
decreasing_by omega

/-- The double nearest to a whole number of 64 bits, scaled by a power of ten; nothing beyond the
finite doubles. The scaling rounds a second time. -/
def scale? (n : Nat) (e : Int) : Option Float :=
  let x := Float.ofNat n
  if e < 0 then some (scaleDown x e.natAbs)
  else if 308 < e then
    if n = 0 then some x else none
  else
    let y := x * powerOfTen e.natAbs
    if y.isFinite then some y else none

/-- The number written as a sign, whole digits, fraction digits and an exponent. Of the digits
those count that fit 64 bits together; a text of whole digits alone within the range of the
integers is an integer. -/
def ofParts? (negative : Bool) (whole : List Nat) (fraction : List Nat) (exponent : Option Int) :
    Option Number :=
  let (n, beyond) := accumulate 0 whole
  let integral := fraction.isEmpty && exponent.isNone && beyond.isEmpty
  let signed : Int := if negative then -(n : Int) else n
  if integral ∧ inRange signed ∧ ¬(negative ∧ n = 0) then some (.int signed)
  else
    let (m, unread) := accumulate n fraction
    let read := fraction.length - unread.length
    let e : Int := (beyond.length : Int) - read + exponent.getD 0
    (scale? m e).map fun x => .float (if negative then -x else x)

/-- Splits off the leading decimal digits. -/
def splitDigits (s : List Char) : List Nat × List Char :=
  ((s.takeWhile Char.isDigit).map fun c => c.toNat - '0'.toNat, s.dropWhile Char.isDigit)

/-- Splits off a fraction: a point and at least one digit. -/
def splitFraction? : List Char → Option (List Nat × List Char)
  | '.' :: s =>
    let (digits, rest) := splitDigits s
    if digits.isEmpty then none else some (digits, rest)
  | _ => none

/-- The value of a run of decimal digits. -/
def ofDigits (digits : List Nat) : Nat :=
  digits.foldl (fun n d => n * 10 + d) 0

/-- Splits off an exponent: a mark, perhaps a sign, and at least one digit. -/
def splitExponent? : List Char → Option (Int × List Char)
  | mark :: s =>
    if mark = 'e' ∨ mark = 'E' then
      let (negative, s) := match s with
        | '-' :: s => (true, s)
        | '+' :: s => (false, s)
        | s => (false, s)
      let (digits, rest) := splitDigits s
      let e : Int := ofDigits digits
      if digits.isEmpty then none else some (if negative then -e else e, rest)
    else none
  | [] => none

/-- The parts of a numeral at the head of a text. -/
structure Numeral where
  /-- Whether a minus sign leads. -/
  negative : Bool
  /-- The digits before the point. -/
  whole : List Nat
  /-- The digits after the point. -/
  fraction : List Nat
  /-- The exponent, if one is written. -/
  exponent : Option Int

/-- The number that a numeral stands for. -/
def Numeral.value? (n : Numeral) : Option Number :=
  ofParts? n.negative n.whole n.fraction n.exponent

/-- Splits the longest numeral off a text: no leading zeros, and a fraction or an exponent only if
it is complete. -/
def splitNumeral? (s : List Char) : Option (Numeral × List Char) :=
  let (negative, s) := match s with
    | '-' :: s => (true, s)
    | s => (false, s)
  let whole? := match s with
    | '0' :: rest => some ([0], rest)
    | s =>
      let (digits, rest) := splitDigits s
      if digits.isEmpty then none else some (digits, rest)
  whole?.map fun (whole, s) =>
    let (fraction, s) := (splitFraction? s).getD ([], s)
    let (exponent, s) := match splitExponent? s with
      | some (e, s) => (some e, s)
      | none => (none, s)
    (⟨negative, whole, fraction, exponent⟩, s)

/-- The number that is written by the whole text, if it is one. -/
def ofText? (s : List Char) : Option Number :=
  match splitNumeral? s with
  | some (numeral, []) => numeral.value?
  | _ => none

/-- The integer that a double equals, if it is whole. -/
def wholeOfFloat? (x : Float) : Option Int :=
  if x.isFinite then
    let b := Decimal.Binary.ofBits x.toBits
    let magnitude : Option Nat :=
      if 0 ≤ b.q then some (b.m * Nat.pow 2 b.q.toNat)
      else if b.m % Nat.pow 2 (-b.q).toNat = 0 then some (b.m / Nat.pow 2 (-b.q).toNat)
      else none
    magnitude.map fun n => if x.toBits >>> 63 = 1 then -(n : Int) else n
  else none

end Number

end GraphExec
