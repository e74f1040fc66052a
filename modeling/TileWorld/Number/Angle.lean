import TileWorld.Number.Binary

/-! Sine and cosine of singles. The precision of a machine's own is unspecified, and two machines may
differ in the last place. Here both are chosen to be correctly rounded: the angle is reduced and the
series summed in fixed point, far more finely than any result needs, and one rounding follows. -/
namespace TileWorld.Number

/-- Fractional bits of the fixed-point numbers here. The greatest single is below `2 ^ 128`, and no
single that is not zero comes nearer than `2 ^ (-149)` to a multiple of a quarter turn. -/
def fineBits : Nat := 448

/-- `arctan (1 / k)` in fixed point, by its power series. -/
def arctanInverse (k : Nat) : Nat :=
  let rec go : Nat → Nat → Nat → Int → Int
    | 0, _, _, sum => sum
    | terms + 1, power, n, sum =>
      let term : Int := power / (2 * n + 1)
      go terms (power / (k * k)) (n + 1) (if n % 2 = 0 then sum + term else sum - term)
  (go 128 ((1 <<< fineBits) / k) 0 0).toNat

/-- A quarter turn: an eighth of a turn is `4 arctan (1/5) - arctan (1/239)`. -/
def quarterTurn : Nat :=
  2 * (4 * arctanInverse 5 - arctanInverse 239)

/-- The alternating series `1 - r² / ((n+1)(n+2)) * (1 - …)` in fixed point, for a square `r²`. -/
def alternating (square : Nat) : Nat → Nat → Nat
  | 0, _ => 1 <<< fineBits
  | terms + 1, n =>
    let rest := (square * alternating square terms (n + 2)) >>> fineBits
    (1 <<< fineBits) - rest / ((n + 1) * (n + 2))

/-- Sine and cosine of an angle within a quarter turn, all in fixed point. -/
def sineCosine (r : Nat) : Nat × Nat :=
  let square := (r * r) >>> fineBits
  ((r * alternating square 64 1) >>> fineBits, alternating square 64 0)

def ofFine (negative : Bool) (x : Nat) : Float32 :=
  singleOfPattern (Format.single.signed negative (Format.single.nearest x (1 <<< fineBits)))

/-- Sine and cosine of an angle in radians, the nearest singles. What is proved of rotated shapes holds
whatever stands here. -/
def sinCos (x : Float32) : Float32 × Float32 :=
  match singleValue x with
  | .finite negative m e =>
    if m = 0 then (x, 1.0) else
      let angle := (m <<< (e + fineBits).toNat)
      let (s, c) := sineCosine (angle % quarterTurn)
      match angle / quarterTurn % 4 with
      | 0 => (ofFine negative s, ofFine false c)
      | 1 => (ofFine negative c, ofFine true s)
      | 2 => (ofFine (!negative) s, ofFine true c)
      | _ => (ofFine (!negative) c, ofFine false s)
  | _ =>
    let nan := singleOfPattern (Format.single.encode .nan)
    (nan, nan)

/-- Degrees in radians: one product with a hundred-and-eightieth of a half turn. -/
def toRadians (degrees : Float32) : Float32 :=
  degrees * .ofBits 0x3c8efa35

end TileWorld.Number
