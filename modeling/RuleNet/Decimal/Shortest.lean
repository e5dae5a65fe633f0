/-
  RuleNet — the shortest decimal that reads back as a given binary number.

  A number `m · 2 ^ q` of a binary format stands for all reals that round to
  it: those from halfway to the neighbour below to halfway to the neighbour
  above, the ends included exactly when `m` is even.  The shortest decimal is
  the multiple of the largest possible power of ten among these reals; of two
  such multiples it is the nearer one, and the upper one if both are equally
  near.
-/

namespace RuleNet.Decimal

/-- A positive number `mantissa · 2 ^ exponent` of a binary format. -/
structure Binary where
  /-- The significant bits. -/
  mantissa : Nat
  /-- The power of two that scales them. -/
  exponent : Int
  /-- Whether the gap to the neighbour below is half the gap to the one above. -/
  narrowBelow : Bool

/-- How many fractions a 64-bit code can hold, in its 52 lowest bits. -/
def fractionCount : Nat := 0x10000000000000

/-- How many exponents a 64-bit code can hold, in the 11 bits above. -/
def exponentCount : Nat := 0x800

/-- The number whose 64-bit code has the given bits, its sign left out.  The
    code must be that of a finite number other than zero. -/
def Binary.ofBits (bits : UInt64) : Binary :=
  let stored : Nat := bits.toNat / fractionCount % exponentCount
  let fraction : Nat := bits.toNat % fractionCount
  if stored = 0 then ⟨fraction, -1074, false⟩
  else ⟨fractionCount + fraction, (stored : Int) - 1075, fraction == 0 && stored > 1⟩

/-- The decimal `digits · 10 ^ exponent`. -/
structure Scaled where
  /-- The significant digits, read as one number. -/
  digits : Nat
  /-- The power of ten that scales them. -/
  exponent : Int

/-- The multiple of `10 ^ scale` that reads back as `x`, if there is one: the
    two multiples around `x` are the only candidates. -/
def Binary.onGrid? (x : Binary) (scale : Int) : Option Scaled :=
  -- a quarter of the last bit of `x`, and `10 ^ scale`, in a common unit
  let quarter := Nat.pow 2 (x.exponent - 2).toNat * Nat.pow 10 (-scale).toNat
  let grid := Nat.pow 2 (2 - x.exponent).toNat * Nat.pow 10 scale.toNat
  let low := (if x.narrowBelow then 4 * x.mantissa - 1 else 4 * x.mantissa - 2) * quarter
  let high := (4 * x.mantissa + 2) * quarter
  let value := 4 * x.mantissa * quarter
  let readsBack (n : Nat) : Bool :=
    if x.mantissa % 2 = 0 then low ≤ n * grid && n * grid ≤ high
    else low < n * grid && n * grid < high
  let below := value / grid
  match readsBack below, readsBack (below + 1) with
  | true, false => some ⟨below, scale⟩
  | false, true => some ⟨below + 1, scale⟩
  | true, true =>
    if 2 * value < (2 * below + 1) * grid then some ⟨below, scale⟩
    else some ⟨below + 1, scale⟩
  | false, false => none

/-- The scale above which no multiple reads back as a 64-bit number. -/
def topScale : Int := 309

/-- How many scales lie between the largest and the smallest 64-bit number,
    the seventeen digits of the latter included. -/
def scaleCount : Nat := 652

/-- The shortest decimal that reads back as `x`: scales are tried from the
    largest down, and the first one with a multiple that reads back wins. -/
def Binary.shortest (x : Binary) : Scaled :=
  ((List.range scaleCount).findSome? fun (i : Nat) => x.onGrid? (topScale - i)).getD
    -- with an unbounded mantissa the search can end without a hit
    ⟨x.mantissa * Nat.pow 2 x.exponent.toNat * Nat.pow 5 (-x.exponent).toNat, min x.exponent 0⟩

/-- The digits of a decimal and the exponent of its leading digit. -/
def Scaled.leading (d : Scaled) : List Char × Int :=
  let digits := Nat.toDigits 10 d.digits
  (digits, d.exponent + digits.length - 1)

end RuleNet.Decimal
