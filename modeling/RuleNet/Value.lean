/-
  RuleNet — literal values in constraints.

  Values compare by content; floating-point numbers compare by their codes,
  so that a value always equals itself.
-/
import RuleNet.Decimal.Shortest
import RuleNet.Ident
import RuleNet.Text.Quoted

namespace RuleNet

/-- A literal value. -/
inductive Value where
  /-- The absence of a value. -/
  | nil
  /-- A truth value. -/
  | bool (b : Bool)
  /-- A 64-bit signed integer. -/
  | int (n : Int)
  /-- A 64-bit floating-point number, given by its code. -/
  | float (bits : UInt64)
  /-- A text. -/
  | string (s : String)
  /-- An interned name. -/
  | symbol (s : Symbol)
  deriving DecidableEq

/-! ## Floating-point numbers in text -/

namespace Float64

/-- The bit of a code that is set for negative numbers. -/
def signBit : Nat := 0x8000000000000000

/-- The code of positive infinity; the codes above it, up to the sign bit, are
    those of no number. -/
def infinity : Nat := 0x7ff0000000000000

/-- The least power of ten that is written positionally. -/
def leastPositional : Int := -4

/-- The least power of ten that is no longer written positionally. -/
def leastScientific : Int := 16

/-- The digits `ds`, the first of them standing for `10 ^ e`, written
    positionally with at least one place. -/
def positional (ds : List Char) (e : Int) : String :=
  if e < 0 then
    String.ofList ("0.".toList ++ List.replicate (-e - 1).toNat '0' ++ ds)
  else
    let whole := ds.take (e.toNat + 1)
    let places := ds.drop (e.toNat + 1)
    String.ofList (whole ++ List.replicate (e.toNat + 1 - whole.length) '0' ++ ['.'] ++
      (if places.isEmpty then ['0'] else places))

/-- The digits `ds`, the first of them standing for `10 ^ e`, with one digit
    before the point and the power of ten written out. -/
def scientific (ds : List Char) (e : Int) : String :=
  let places := ds.drop 1
  String.ofList (ds.take 1 ++ (if places.isEmpty then [] else '.' :: places)) ++ s!"e{e}"

/-- The shortest text that reads back as the number with the given code:
    positional from `10 ^ -4` to below `10 ^ 16`, else scientific.  Zero keeps
    its sign. -/
def text (bits : UInt64) : String :=
  let code := bits.toNat % signBit
  let sign := if bits.toNat < signBit then "" else "-"
  if code > infinity then "NaN"
  else if code = infinity then sign ++ "inf"
  else if code = 0 then sign ++ "0.0"
  else
    let (ds, e) := (Decimal.Binary.ofBits bits).shortest.leading
    sign ++ (if leastPositional ≤ e ∧ e < leastScientific then positional ds e
      else scientific ds e)

end Float64

/-! ## Values in text -/

namespace Value

/-- Whether a value is the absent one. -/
def isNil (v : Value) : Bool := v == nil

/-- The integer that a value is, if it is one. -/
def int? : Value → Option Int
  | int n => some n
  | _ => none

/-- The text that a value is, if it is one. -/
def string? : Value → Option String
  | string s => some s
  | _ => none

/-- The word for a value's type. -/
def typeName : Value → String
  | nil => "nil"
  | bool _ => "bool"
  | int _ => "int"
  | float _ => "float"
  | string _ => "string"
  | symbol _ => "symbol"

/-- A value as shown in diagnostics, its text quoted with escapes. -/
def debugText : Value → String
  | nil => "nil"
  | bool b => if b then "true" else "false"
  | int n => toString n
  | float bits => Float64.text bits
  | string s => Text.quote s
  | symbol s => s.text

/-- A value as written in constraints: text stands in quotes as it is, names
    are marked and shown by number. -/
def text : Value → String
  | string s => "\"" ++ s ++ "\""
  | symbol s => s!"'{s}"
  | v => v.debugText

end Value

end RuleNet
