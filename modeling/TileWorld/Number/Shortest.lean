import TileWorld.Number.Binary

/-! The shortest decimal that reads back as a float, and its text without an exponent. A coarser
grid of decimals is tried before a finer one, so the first hit has the fewest digits. -/
namespace TileWorld.Number

/-- Which of two decimals is taken if both are equally near. -/
inductive Tie where
  | greater
  | even

/-- The reals that round to one float, between `low` and `high` around `mid`, all three in units
of `2 ^ exponent`. -/
structure Basin where
  low : Nat
  mid : Nat
  high : Nat
  exponent : Int
  /-- Whether the ends round to it too. -/
  closed : Bool

namespace Basin

/-- The basin of a positive finite pattern. Just above a power of two the gap below is half as
wide; an even significand wins the ties at both ends. -/
def ofPattern (F : Format) (pattern : Nat) : Basin :=
  let (m, e) := F.decode pattern
  let halved := pattern % 1 <<< F.fractionBits = 0 ∧ 1 <<< F.fractionBits < pattern
  { low := 4 * m - if halved then 1 else 2
    mid := 4 * m
    high := 4 * m + 2
    exponent := e - 2
    closed := m % 2 = 0 }

/-- The multiple of `10 ^ grid` in the basin that is nearest to its float. -/
def onGrid? (b : Basin) (tie : Tie) (grid : Int) : Option Nat :=
  let unit := Nat.pow 10 grid.toNat <<< (-b.exponent).toNat
  let scale := Nat.pow 10 (-grid).toNat <<< b.exponent.toNat
  let inside (x : Nat) : Bool :=
    if b.closed then b.low * scale ≤ x ∧ x ≤ b.high * scale
    else b.low * scale < x ∧ x < b.high * scale
  let mid := b.mid * scale
  let c := mid / unit
  let below := c * unit
  let above := below + unit
  match inside below, inside above with
  | true, true =>
    match compare (mid - below) (above - mid), tie with
    | .lt, _ => some c
    | .gt, _ | .eq, .greater => some (c + 1)
    | .eq, .even => some (c + c % 2)
  | true, false => some c
  | false, true => some (c + 1)
  | false, false => none

/-- The first hit among `grid`, `grid - 1`, …, with its grid. -/
def search (b : Basin) (tie : Tie) : Nat → Int → Nat × Int
  | 0, grid => (0, grid)
  | fuel + 1, grid =>
    match b.onGrid? tie grid with
    | some c => (c, grid)
    | none => b.search tie fuel (grid - 1)

/-- Digits and exponent of the shortest decimal in the basin. The first grid lies above the float
(`0.30103 > 1233 / 4096`, and one more place makes up for it); seventeen significant digits always
suffice. -/
def shortest (b : Basin) (tie : Tie) : Nat × Int :=
  let bits : Int := b.mid.log2 + 1 + b.exponent
  b.search tie 24 (bits * 1233 / 4096 + 2)

end Basin

/-- `digits * 10 ^ exponent` in positional notation. -/
def positional (digits : Nat) (exponent : Int) : String :=
  let ds := Nat.toDigits 10 digits
  let places := (-exponent).toNat
  if places = 0 then String.ofList (ds ++ List.replicate exponent.toNat '0')
  else
    let padded := List.replicate (places + 1 - ds.length) '0' ++ ds
    let whole := padded.length - places
    String.ofList (padded.take whole ++ '.' :: padded.drop whole)

/-- The text of a float. -/
def render (F : Format) (bits : Nat) : String :=
  match F.value bits with
  | .nan => "NaN"
  | .infinite negative => if negative then "-inf" else "inf"
  | .finite negative m _ =>
    let text :=
      if m = 0 then "0"
      else
        let (digits, exponent) := (Basin.ofPattern F (bits % F.signBit)).shortest .greater
        positional digits exponent
    if negative then "-" ++ text else text

def renderSingle (x : Float32) : String :=
  render .single x.toBits.toNat

def renderDouble (x : Float) : String :=
  render .double x.toBits.toNat

end TileWorld.Number
