import TileWorld.Tileset.Track

/-! Playback of a track by one instance. -/
namespace TileWorld

/-- Where an instance stands in a track. -/
structure Cursor where
  track : TrackRef
  frame : Nat
  elapsedMs : UInt32
  /-- Whether the hold frame it stands on has been announced. -/
  heldNotified : Bool
deriving DecidableEq, Inhabited

namespace Track

/-- Spends milliseconds on frames from one on, for at most `steps` frames: the frame it ends on and
the milliseconds left there. A hold frame takes any time and counts it up to the policy's
threshold. -/
def spend (t : Track) : Nat → Nat → Nat → Nat × Nat
  | 0, frame, elapsed => (frame, elapsed)
  | steps + 1, frame, elapsed =>
    match t.frame? frame with
    | none => (frame, elapsed)
    | some f =>
      if t.isHold f then (frame, min elapsed t.policy.thresholdMs.toNat)
      else if elapsed < f.durationMs.toNat then (frame, elapsed)
      else t.spend steps ((frame + 1) % t.length) (elapsed - f.durationMs.toNat)

/-- The frame and time after `elapsed` milliseconds in a frame. Whole loops change nothing and are
left out first, so one pass over the frames is enough. A track that neither holds nor takes time
moves on by one frame a call. -/
def seek (t : Track) (frame elapsed : Nat) : Nat × Nat :=
  if !t.hasHold && t.periodMs = 0 then ((frame + 1) % t.length, 0)
  else t.spend t.length frame (if t.hasHold then elapsed else elapsed % t.periodMs)

end Track

namespace Cursor

/-- A cursor at the start of a track. -/
def start (track : TrackRef) : Cursor :=
  ⟨track, 0, 0, false⟩

/-- Playback started again on another track, or on its own. -/
def switchTrack (c : Cursor) (track : TrackRef) : Cursor :=
  { c with track, frame := 0, elapsedMs := 0, heldNotified := false }

/-- The cursor after more time on its track; one past the end starts again first. -/
def advance (c : Cursor) (t : Track) (deltaMs : UInt32) : Cursor :=
  let inRange := decide (c.frame < t.length)
  let frame := if inRange then c.frame else 0
  let elapsed := if inRange then c.elapsedMs.toNat else 0
  let (frame, elapsed) := t.seek frame (elapsed + deltaMs.toNat)
  { c with frame, elapsedMs := .ofNat (min elapsed 0xFFFFFFFF) }

def frame? (c : Cursor) (t : Track) : Option Frame :=
  t.frame? c.frame

/-- The tile shown. -/
def tile? (c : Cursor) (t : Track) : Option TileId :=
  (c.frame? t).map (·.tile)

def isHolding (c : Cursor) (t : Track) : Bool :=
  (c.frame? t).any t.isHold

end Cursor

end TileWorld
