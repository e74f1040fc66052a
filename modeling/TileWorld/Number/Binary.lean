/-! Binary floating-point formats in exact integer arithmetic: what a bit pattern denotes, and the
pattern nearest to a quotient. Every conversion passes through these two, so it rounds once. -/
namespace TileWorld.Number

/-- The widths of the two magnitude fields of a binary format. -/
structure Format where
  fractionBits : Nat
  exponentBits : Nat

/-- What a float denotes: a finite one is `± significand * 2 ^ exponent`. -/
inductive Value where
  | nan
  | infinite (negative : Bool)
  | finite (negative : Bool) (significand : Nat) (exponent : Int)

/-- The quotient to the nearest natural number; a half goes to the even neighbour. -/
def roundDiv (num den : Nat) : Nat :=
  let q := num / den
  let r := num % den
  if 2 * r < den ∨ (2 * r = den ∧ q % 2 = 0) then q else q + 1

/-- The `k` with `2 ^ k ≤ num / den < 2 ^ (k + 1)`, for a positive quotient. -/
def log2Quotient (num den : Nat) : Int :=
  let k : Int := num.log2 - den.log2
  if num <<< (-k).toNat < den <<< k.toNat then k - 1 else k

namespace Format

def single : Format := ⟨23, 8⟩

def double : Format := ⟨52, 11⟩

/-- Exponent of the last place of the smallest magnitudes. -/
def minExponent (F : Format) : Int :=
  2 - (1 <<< (F.exponentBits - 1) : Nat) - F.fractionBits

/-- The magnitude pattern of infinity: finite patterns are below it, those of NaN above. -/
def infinity (F : Format) : Nat :=
  (1 <<< F.exponentBits - 1) <<< F.fractionBits

def signBit (F : Format) : Nat :=
  1 <<< (F.fractionBits + F.exponentBits)

/-- Significand and exponent of a finite magnitude pattern. -/
def decode (F : Format) (pattern : Nat) : Nat × Int :=
  let e := pattern >>> F.fractionBits
  let m := pattern % 1 <<< F.fractionBits
  if e = 0 then (m, F.minExponent) else (m + 1 <<< F.fractionBits, F.minExponent + (e - 1 : Nat))

/-- The magnitude pattern nearest to `num / den`, a half to the even pattern. The hidden bit of
the rounded significand adds itself to the exponent field, and so does a carry out of it. -/
def nearest (F : Format) (num den : Nat) : Nat :=
  if num = 0 then 0 else
    let e := max F.minExponent (log2Quotient num den - F.fractionBits)
    let q := roundDiv (num <<< (-e).toNat) (den <<< e.toNat)
    min F.infinity ((e - F.minExponent).toNat <<< F.fractionBits + q)

/-- What a pattern with its sign bit denotes. -/
def value (F : Format) (bits : Nat) : Value :=
  let negative := decide (F.signBit ≤ bits)
  let pattern := bits % F.signBit
  if pattern < F.infinity then
    let (m, e) := F.decode pattern
    .finite negative m e
  else if pattern = F.infinity then .infinite negative else .nan

/-- A magnitude pattern under a sign. -/
def signed (F : Format) (negative : Bool) (pattern : Nat) : Nat :=
  if negative then F.signBit + pattern else pattern

/-- The pattern nearest to a value. -/
def encode (F : Format) : Value → Nat
  | .nan => F.infinity + 1
  | .infinite negative => F.signed negative F.infinity
  | .finite negative m e => F.signed negative (F.nearest (m <<< e.toNat) (1 <<< (-e).toNat))

end Format

def singleValue (x : Float32) : Value :=
  Format.single.value x.toBits.toNat

def doubleValue (x : Float) : Value :=
  Format.double.value x.toBits.toNat

def singleOfPattern (bits : Nat) : Float32 :=
  .ofBits (.ofNat bits)

def doubleOfPattern (bits : Nat) : Float :=
  .ofBits (.ofNat bits)

/-- The double equal to a single. -/
def widen (x : Float32) : Float :=
  doubleOfPattern (Format.double.encode (singleValue x))

/-- The single nearest to a double. -/
def narrow (x : Float) : Float32 :=
  singleOfPattern (Format.single.encode (doubleValue x))

/-- The single nearest to an integer. -/
def singleOfInt (n : Int) : Float32 :=
  singleOfPattern (Format.single.encode (.finite (decide (n < 0)) n.natAbs 0))

/-- The double nearest to an integer. -/
def doubleOfInt (n : Int) : Float :=
  doubleOfPattern (Format.double.encode (.finite (decide (n < 0)) n.natAbs 0))

/-- The greatest integer not above a finite double; a zero keeps its sign, and what is not finite
is its own floor. -/
def floor (x : Float) : Float :=
  match doubleValue x with
  | .finite negative m e =>
    let unit := 1 <<< (-e).toNat
    let whole := m / unit + if negative ∧ m % unit ≠ 0 then 1 else 0
    if e < 0 then doubleOfPattern (Format.double.encode (.finite negative whole 0)) else x
  | _ => x

end TileWorld.Number
