/-! Animation tracks, and the policy that tells hold frames from frames that pass. -/
namespace TileWorld

/-- The id of a tile, unique within its tileset. -/
abbrev TileId := UInt32

/-- Decides which durations park playback. -/
structure HoldPolicy where
  /-- Durations from here on hold; time on a hold frame is counted up to here. -/
  thresholdMs : UInt32 := 10000
  /-- Whether a duration of zero means an indefinite stay. -/
  zeroHolds : Bool := true
deriving DecidableEq, Inhabited

def HoldPolicy.isHold (p : HoldPolicy) (durationMs : UInt32) : Bool :=
  p.thresholdMs ≤ durationMs || (durationMs = 0 && p.zeroHolds)

structure Frame where
  tile : TileId
  durationMs : UInt32
deriving DecidableEq, Inhabited

/-- A non-empty sequence of frames under the policy that decides its holds. It loops unless it
reaches a hold frame. -/
structure Track where
  policy : HoldPolicy
  frames : List Frame
  frames_ne_nil : frames ≠ []
deriving DecidableEq

namespace Track

def ofFrames? (policy : HoldPolicy) (frames : List Frame) : Option Track :=
  if h : frames ≠ [] then some ⟨policy, frames, h⟩ else none

def length (t : Track) : Nat :=
  t.frames.length

theorem length_pos (t : Track) : 0 < t.length :=
  List.length_pos_iff.2 t.frames_ne_nil

def isHold (t : Track) (f : Frame) : Bool :=
  t.policy.isHold f.durationMs

def frame? (t : Track) (index : Nat) : Option Frame :=
  t.frames[index]?

def firstTile (t : Track) : TileId :=
  (t.frames.head t.frames_ne_nil).tile

/-- Whether playback ever parks. -/
def hasHold (t : Track) : Bool :=
  t.frames.any t.isHold

/-- The sum of all durations; of a track without hold frames, the length of one loop. -/
def periodMs (t : Track) : Nat :=
  t.frames.foldr (·.durationMs.toNat + ·) 0

def containsTile (t : Track) (tile : TileId) : Bool :=
  t.frames.any (·.tile = tile)

end Track

/-- Names a track by the tileset that authored it and its place there. -/
structure TrackRef where
  tileset : String
  slot : Nat
deriving DecidableEq, Inhabited

end TileWorld
