import TileWorld.Number.Binary

/-! Decimal numbers and their reading: the digits are exact, and one rounding gives a float. -/
namespace TileWorld.Number

/-- The number `± digits * 10 ^ exponent`. -/
structure Decimal where
  negative : Bool
  digits : Nat
  exponent : Int

/-- What the text of a float names. -/
inductive Numeral where
  | nan
  | infinite (negative : Bool)
  | decimal (number : Decimal)

namespace Decimal

/-- The magnitude pattern nearest to a decimal. Powers of ten far outside every format are never
computed: `10 ^ 400` is above the greatest finite double, and below `2 ^ (-1100)` all is zero. -/
def magnitude (F : Format) (d : Decimal) : Nat :=
  let places := (-d.exponent).toNat
  if d.digits = 0 ∨ d.digits.log2 + 1100 < 3 * places then 0
  else if 400 ≤ d.exponent then F.infinity
  else F.nearest (d.digits * Nat.pow 10 d.exponent.toNat) (Nat.pow 10 places)

def toSingle (d : Decimal) : Float32 :=
  singleOfPattern (Format.single.signed d.negative (d.magnitude .single))

def toDouble (d : Decimal) : Float :=
  doubleOfPattern (Format.double.signed d.negative (d.magnitude .double))

end Decimal

def digitValue (c : Char) : Nat :=
  c.toNat - '0'.toNat

/-- The number `n` with digits appended, most significant first. -/
def appendDigits (n : Nat) (digits : List Char) : Nat :=
  digits.foldl (fun n c => 10 * n + digitValue c) n

/-- The number that digits spell. -/
def ofDigits (digits : List Char) : Nat :=
  appendDigits 0 digits

/-- Takes a sign off the front; `true` is minus. -/
def takeSign : List Char → Bool × List Char
  | '-' :: cs => (true, cs)
  | '+' :: cs => (false, cs)
  | cs => (false, cs)

/-- A non-empty run of digits, as a number. -/
def readDigits? (cs : List Char) : Option Nat :=
  if !cs.isEmpty && cs.all Char.isDigit then some (ofDigits cs) else none

/-- A whole number up to `limit`: digits with an optional plus. -/
def readNat? (limit : Nat) (cs : List Char) : Option Nat :=
  let digits := match cs with
    | '+' :: rest => rest
    | _ => cs
  (readDigits? digits).filter (· ≤ limit)

/-- A whole number of either sign: digits with an optional plus or minus. -/
def readInt? (cs : List Char) : Option Int :=
  let (negative, digits) := takeSign cs
  (readDigits? digits).map fun n => if negative then -(n : Int) else n

/-- The exponent after a mantissa: nothing, or `e` and a whole number. -/
def readExponent? : List Char → Option Int
  | [] => some 0
  | c :: cs => if c.toLower = 'e' then readInt? cs else none

/-- Digits with an optional point, at least one digit on either side, and an optional exponent. -/
def readDecimal? (negative : Bool) (cs : List Char) : Option Decimal := do
  let whole := cs.takeWhile Char.isDigit
  let rest := cs.dropWhile Char.isDigit
  let (fraction, rest) := match rest with
    | '.' :: rest => (rest.takeWhile Char.isDigit, rest.dropWhile Char.isDigit)
    | _ => ([], rest)
  if whole.isEmpty && fraction.isEmpty then none
  let exponent ← readExponent? rest
  some ⟨negative, ofDigits (whole ++ fraction), exponent - fraction.length⟩

namespace Numeral

/-- The text of a float: `nan`, `inf` or `infinity` in any case, or a decimal, each after an
optional sign. -/
def parse? (cs : List Char) : Option Numeral :=
  let (negative, cs) := takeSign cs
  let word := cs.map Char.toLower
  if word = "nan".toList then some .nan
  else if word = "inf".toList ∨ word = "infinity".toList then some (.infinite negative)
  else (readDecimal? negative cs).map .decimal

def toSingle : Numeral → Float32
  | .nan => singleOfPattern (Format.single.encode .nan)
  | .infinite negative => singleOfPattern (Format.single.encode (.infinite negative))
  | .decimal d => d.toSingle

def toDouble : Numeral → Float
  | .nan => doubleOfPattern (Format.double.encode .nan)
  | .infinite negative => doubleOfPattern (Format.double.encode (.infinite negative))
  | .decimal d => d.toDouble

end Numeral

end TileWorld.Number
