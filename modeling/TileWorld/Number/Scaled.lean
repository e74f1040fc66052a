import TileWorld.Number.Decimal

/-! Decimals read in double arithmetic: the leading digits that a 64-bit word holds become a double,
and products or quotients with powers of ten scale it. Each step rounds, so the result may miss the
nearest double by some units in the last place. -/
namespace TileWorld.Number

/-- Appends digits to a significand while a 64-bit word holds it, and tells which are left over. -/
def absorb (s : Nat) : List Char → Nat × List Char
  | [] => (s, [])
  | c :: cs =>
    let t := 10 * s + digitValue c
    if t < UInt64.size then absorb t cs else (s, c :: cs)

/-- The power of ten as a double, infinite beyond `10 ^ 308`. -/
def powerOfTen (n : Nat) : Float :=
  doubleOfInt (Nat.pow 10 (min n 309))

namespace Decimal

/-- A decimal with the digits for which there is room. One left over before the point still counts
as a place, and once there is no room behind the point the rest of the digits go. -/
def cut (negative : Bool) (whole fraction : List Char) (power : Int) : Decimal :=
  let (s, dropped) := absorb 0 whole
  let (digits, rest) := absorb s fraction
  ⟨negative, digits, power + dropped.length - (fraction.length - rest.length : Nat)⟩

/-- The digits as a double, times the power of ten; none beyond every double. No single quotient
scales further down than `10 ^ (-308)`. -/
def scaled? (d : Decimal) : Option Float :=
  let places := (-d.exponent).toNat
  let up := doubleOfInt d.digits * powerOfTen d.exponent.toNat
  let scaled := up / powerOfTen (min places 308) / powerOfTen (places - 308)
  let x := if d.digits = 0 then doubleOfInt 0 else scaled
  if x.isFinite then some (if d.negative then -x else x) else none

end Decimal

end TileWorld.Number
