import Mathlib.Computability.StateTransition
import TileWorld.Proofs.Playback

/-! Playback against the loop as a reader would write it down: time is added, and frames are left one
after the other for as long as their time has passed. No period is left out and no step counted. The
loop ends on every live track and where an advance ends, and on no other track. -/
namespace TileWorld

namespace Track

/-- One turn of the loop: a frame that does not hold is left when its time has passed, the last one for
the first. -/
def leave? (t : Track) (now : Nat × Nat) : Option (Nat × Nat) :=
  if t.holdsAt now.1 = false ∧ t.duration now.1 ≤ now.2 then
    some ((now.1 + 1) % t.length, now.2 - t.duration now.1)
  else none

/-- On a hold frame time is counted up to the threshold. -/
def clampHold (t : Track) (now : Nat × Nat) : Nat × Nat :=
  if t.holdsAt now.1 then (now.1, min now.2 t.policy.thresholdMs.toNat) else now

/-- The plain loop: the frame and time after `elapsed` milliseconds in a frame. It takes turns without
a bound, so it has a value only where it comes to an end. -/
def plainLoop (t : Track) (frame elapsed : Nat) : Part (Nat × Nat) :=
  (StateTransition.eval t.leave? (frame, elapsed)).map t.clampHold

variable {t : Track}

theorem leave?_of_leaves {frame elapsed : Nat} (hh : t.holdsAt frame = false)
    (he : t.duration frame ≤ elapsed) :
    t.leave? (frame, elapsed) = some ((frame + 1) % t.length, elapsed - t.duration frame) :=
  if_pos ⟨hh, he⟩

theorem leave?_of_stays {frame elapsed : Nat}
    (h : ¬ (t.holdsAt frame = false ∧ t.duration frame ≤ elapsed)) :
    t.leave? (frame, elapsed) = none :=
  if_neg h

theorem mem_plainLoop_iff (frame elapsed : Nat) (r : Nat × Nat) :
    r ∈ t.plainLoop frame elapsed ↔
      ∃ last, StateTransition.Reaches t.leave? (frame, elapsed) last ∧ t.leave? last = none ∧
        t.clampHold last = r := by
  simp only [plainLoop, Part.mem_map_iff, StateTransition.mem_eval, and_assoc]

/-- The loop ends where playback comes to rest. -/
theorem Rests.mem_plainLoop {frame elapsed : Nat} {r : Nat × Nat} (h : t.Rests frame elapsed r) :
    r ∈ t.plainLoop frame elapsed := by
  induction h with
  | hold _ hh =>
    refine (mem_plainLoop_iff ..).mpr ⟨_, .refl, leave?_of_stays (by simp [hh]), ?_⟩
    simp [clampHold, hh]
  | wait hh he =>
    refine (mem_plainLoop_iff ..).mpr ⟨_, .refl, leave?_of_stays (by omega), ?_⟩
    simp [clampHold, hh]
  | leave _ hh he _ ih =>
    obtain ⟨last, hreaches, hend⟩ := (mem_plainLoop_iff ..).mp ih
    exact (mem_plainLoop_iff ..).mpr ⟨last, .head (leave?_of_leaves hh he) hreaches, hend⟩

theorem duration_eq_zero (hz : t.periodMs = 0) (index : Nat) : t.duration index = 0 := by
  rcases Nat.lt_or_ge index t.length with hlt | hge
  · have hsucc := t.before_succ index
    have hle := t.before_mono (show index + 1 ≤ t.length from hlt)
    rw [before_length, hz] at hle
    omega
  · have hnone : t.frame? index = none := List.getElem?_eq_none_iff.mpr hge
    simp [duration, hnone]

/-- On a track that neither holds nor takes time the loop takes turn after turn for ever. -/
theorem plainLoop_eq_none (hh : t.hasHold = false) (hz : t.periodMs = 0) (frame elapsed : Nat) :
    t.plainLoop frame elapsed = Part.none := by
  rw [Part.eq_none_iff]
  intro r hr
  obtain ⟨last, -, hend, -⟩ := (mem_plainLoop_iff ..).mp hr
  -- There is no frame to end on: the time of each has passed at once.
  have hleaves := leave?_of_leaves (holdsAt_eq_false hh last.1)
    ((duration_eq_zero hz last.1).trans_le (Nat.zero_le last.2))
  rw [hend] at hleaves
  cases hleaves

end Track

namespace Cursor

/-- After an advance the cursor is on a frame, and shows its tile. -/
theorem exists_tile?_advance (c : Cursor) (t : Track) (deltaMs : UInt32) :
    ∃ tile, (t.frame? (c.advance t deltaMs).frame).map (·.tile) = some tile ∧
      (c.advance t deltaMs).tile? t = some tile := by
  obtain ⟨f, hf⟩ := Track.frame?_of_lt (c.advance_frame_lt t deltaMs)
  have htile : (t.frame? (c.advance t deltaMs).frame).map (·.tile) = some f.tile := by
    rw [hf, Option.map_some]
  exact ⟨f.tile, htile, htile⟩

/-- An advance ends where the plain loop ends: leaving whole periods out, counting the steps and
clamping to a word never change where that is. Only a track that neither holds nor takes time keeps
the plain loop from ending, and there an advance moves on by one frame. -/
theorem advance_eq_plainLoop (t : Track) (c : Cursor) (hc : c.frame < t.length) (deltaMs : UInt32) :
    (t.hasHold = true ∨ 0 < t.periodMs →
      ∃ frame elapsed tile,
        (frame, elapsed) ∈ t.plainLoop c.frame (c.elapsedMs.toNat + deltaMs.toNat) ∧
        (t.frame? frame).map (·.tile) = some tile ∧
        (c.advance t deltaMs).frame = frame ∧
        (c.advance t deltaMs).elapsedMs.toNat = elapsed ∧
        (c.advance t deltaMs).tile? t = some tile) ∧
    (t.hasHold = false → t.periodMs = 0 →
      (∀ frame elapsed, t.plainLoop frame elapsed = Part.none) ∧
      (c.advance t deltaMs).frame = (c.frame + 1) % t.length ∧
      (c.advance t deltaMs).elapsedMs = 0 ∧
      ∃ tile, (t.frame? ((c.frame + 1) % t.length)).map (·.tile) = some tile ∧
        (c.advance t deltaMs).tile? t = some tile) := by
  obtain ⟨tile, hframe, hshown⟩ := c.exists_tile?_advance t deltaMs
  constructor
  · intro live
    have hr := c.advance_rests deltaMs live
    rw [origin_of_lt hc] at hr
    exact ⟨_, _, tile, hr.mem_plainLoop, hframe, rfl, rfl, hshown⟩
  · intro hh hz
    have hseek : c.advance t deltaMs = { c with frame := (c.frame + 1) % t.length, elapsedMs := 0 } := by
      rw [advance_eq, Track.seek_of_not_live (by simp [Track.Live, hh, hz]), origin_of_lt hc]
      rfl
    refine ⟨Track.plainLoop_eq_none hh hz, ?_, ?_, tile, ?_, hshown⟩
    · rw [hseek]
    · rw [hseek]
    · rwa [hseek] at hframe

/-- Two of the longest times on the last frame of a loop with a frame that takes none, a start behind
a hold, which playback comes to around the end, and a track without any time. -/
theorem advance_eq_plainLoop_long :
    let loop : Track := ⟨⟨10000, false⟩, [⟨1, 100⟩, ⟨2, 0⟩, ⟨3, 50⟩], by simp⟩
    let door : Track := ⟨⟨120, true⟩, [⟨1, 100⟩, ⟨2, 0⟩, ⟨3, 50⟩], by simp⟩
    let flicker : Track := ⟨⟨10000, false⟩, [⟨1, 0⟩, ⟨2, 0⟩], by simp⟩
    let c : Cursor := ⟨⟨"pads.json", 0⟩, 2, 0xFFFFFFFF, false⟩
    let c' : Cursor := ⟨⟨"pads.json", 0⟩, 1, 7, false⟩
    (c.frame < loop.length ∧ 0 < loop.periodMs ∧ (0, 40) ∈ loop.plainLoop 2 8589934590) ∧
      (c.frame < door.length ∧ door.hasHold = true ∧
        (1, 120) ∈ door.plainLoop 2 8589934590) ∧
      c'.frame < flicker.length ∧ flicker.hasHold = false ∧ flicker.periodMs = 0 ∧
      (c'.advance flicker 5).frame = 0 ∧ (c'.advance flicker 5).elapsedMs = 0 := by
  intro loop door flicker c c'
  have htotal : c.elapsedMs.toNat + UInt32.toNat 0xFFFFFFFF = 8589934590 := by decide
  obtain ⟨frame, elapsed, _, hloop, -, hframe, helapsed, -⟩ :=
    (advance_eq_plainLoop loop c (by decide) 0xFFFFFFFF).1 (Or.inr (by decide))
  obtain ⟨frame', elapsed', _, hdoor, -, hframe', helapsed', -⟩ :=
    (advance_eq_plainLoop door c (by decide) 0xFFFFFFFF).1 (Or.inl (by decide))
  obtain ⟨-, hnext, hzero, -⟩ :=
    (advance_eq_plainLoop flicker c' (by decide) 5).2 (by decide) (by decide)
  have hplace : (c.advance loop 0xFFFFFFFF).frame = 0 ∧
      (c.advance loop 0xFFFFFFFF).elapsedMs.toNat = 40 := by decide
  have hplace' : (c.advance door 0xFFFFFFFF).frame = 1 ∧
      (c.advance door 0xFFFFFFFF).elapsedMs.toNat = 120 := by decide
  rw [htotal, ← hframe, ← helapsed, hplace.1, hplace.2] at hloop
  rw [htotal, ← hframe', ← helapsed', hplace'.1, hplace'.2] at hdoor
  rw [show (c'.frame + 1) % flicker.length = 0 by decide] at hnext
  exact ⟨⟨by decide, by decide, hloop⟩, ⟨by decide, by decide, hdoor⟩, by decide, by decide,
    by decide, hnext, hzero⟩

end Cursor

end TileWorld
