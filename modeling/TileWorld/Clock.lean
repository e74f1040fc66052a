import TileWorld.Number.Binary

/-! The clock of a world, in whole milliseconds. What scaling leaves over is carried to the next
step, so that steps of any size add up. -/
namespace TileWorld

structure Clock where
  elapsedMs : UInt64 := 0
  /-- The milliseconds of the last step. -/
  deltaMs : UInt32 := 0
  scale : Float32 := 1.0
  /-- A fraction of a millisecond not yet counted. -/
  carryMs : Float32 := 0.0
deriving DecidableEq, Inhabited

namespace Clock

/-- A number, or zero for what is not above zero. -/
def positivePart (x : Float32) : Float32 :=
  if 0.0 < x then x else 0.0

/-- The whole milliseconds of a number, between zero and the greatest word. -/
def wholeMs (whole : Float) : UInt32 :=
  if UInt32.toFloat 0xFFFFFFFF ≤ whole then 0xFFFFFFFF else whole.toUInt32

/-- A step of some milliseconds before scaling. -/
def advance (c : Clock) (rawMs : Float) : Clock :=
  let scaled := rawMs * Number.widen (positivePart c.scale) + Number.widen c.carryMs
  let whole := Number.floor scaled
  let delta := wholeMs whole
  { c with
    elapsedMs := c.elapsedMs + delta.toUInt64
    deltaMs := delta
    carryMs := Number.narrow (scaled - whole) }

def stepMs (c : Clock) (ms : UInt32) : Clock :=
  c.advance ms.toFloat

/-- A step of some seconds; what is negative or not finite counts as none. -/
def stepSeconds (c : Clock) (seconds : Float32) : Clock :=
  let seconds := if seconds.isFinite then positivePart seconds else 0.0
  c.advance (Number.widen seconds * UInt32.toFloat 1000)

def elapsedSeconds (c : Clock) : Float :=
  c.elapsedMs.toFloat / UInt32.toFloat 1000

end Clock

end TileWorld
