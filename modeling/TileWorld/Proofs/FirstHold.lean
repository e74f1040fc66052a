import TileWorld.Proofs.EntityPass
import TileWorld.Proofs.TimeSlicing

/-! A track with holds, played from its start. Time runs through the frames before the first hold and
then stays there, so the total of the deltas gives the frame and the time on it at once. -/
namespace TileWorld

namespace Track

def firstHold (t : Track) : Nat :=
  t.frames.findIdx t.isHold

theorem firstHold_lt {t : Track} (hh : t.hasHold = true) : t.firstHold < t.length :=
  List.findIdx_lt_length_of_exists (List.any_eq_true.mp hh)

theorem holdsAt_firstHold {t : Track} (hh : t.hasHold = true) : t.holdsAt t.firstHold = true := by
  have hlt := firstHold_lt hh
  rw [holdsAt_of_frame? (List.getElem?_eq_getElem hlt)]
  exact List.findIdx_getElem

theorem holdsAt_of_lt_firstHold {t : Track} {index : Nat} (h : index < t.firstHold) :
    t.holdsAt index = false := by
  have hlt : index < t.length := h.trans_le List.findIdx_le_length
  rw [holdsAt_of_frame? (List.getElem?_eq_getElem hlt)]
  exact List.not_of_lt_findIdx h

/-- Up to the first hold a frame is reached once the time before it is spent. -/
theorem rests_before {t : Track} (hh : t.hasHold = true) {index elapsed : Nat} {r : Nat × Nat}
    (h : index ≤ t.firstHold) (hr : t.Rests index elapsed r) :
    t.Rests 0 (t.before index + elapsed) r := by
  induction index generalizing elapsed with
  | zero => rwa [before_zero, Nat.zero_add]
  | succ index ih =>
    have hlt := firstHold_lt hh
    have hnext : (index + 1) % t.length = index + 1 := Nat.mod_eq_of_lt (by omega)
    have hspent : t.duration index + elapsed - t.duration index = elapsed := by omega
    -- The frame in front does not hold, so its own time moves playback on to this one.
    have hleave : t.Rests index (t.duration index + elapsed) r := by
      refine .leave (by omega) (holdsAt_of_lt_firstHold h) (by omega) ?_
      rwa [hnext, hspent]
    have hfront := ih (by omega) hleave
    rwa [← Nat.add_assoc, ← before_succ] at hfront

theorem exists_span {t : Track} {index time : Nat} (h : time < t.before index) :
    ∃ k < index, t.before k ≤ time ∧ time < t.before (k + 1) := by
  induction index with
  | zero => simp at h
  | succ index ih =>
    rcases Nat.lt_or_ge time (t.before index) with hlt | hge
    · obtain ⟨k, hk, hspan⟩ := ih hlt
      exact ⟨k, by omega, hspan⟩
    · -- The time is not over before the last of these frames, so it falls into that one's span.
      exact ⟨index, by omega, hge, h⟩

theorem rests_at_firstHold {t : Track} (hh : t.hasHold = true) {time : Nat}
    (h : t.before t.firstHold ≤ time) :
    t.Rests 0 time
      (t.firstHold, min (time - t.before t.firstHold) t.policy.thresholdMs.toNat) := by
  have hpark : t.Rests t.firstHold (time - t.before t.firstHold)
      (t.firstHold, min (time - t.before t.firstHold) t.policy.thresholdMs.toNat) :=
    .hold (firstHold_lt hh) (holdsAt_firstHold hh)
  have hr := rests_before hh le_rfl hpark
  rwa [Nat.add_sub_cancel' h] at hr

theorem rests_in_front {t : Track} (hh : t.hasHold = true) {k time : Nat} (hk : k < t.firstHold)
    (hle : t.before k ≤ time) (hlt : time < t.before (k + 1)) :
    t.Rests 0 time (k, time - t.before k) := by
  rw [before_succ] at hlt
  have hwait : t.Rests k (time - t.before k) (k, time - t.before k) :=
    .wait (holdsAt_of_lt_firstHold hk) (by omega)
  have hr := rests_before hh hk.le hwait
  rwa [Nat.add_sub_cancel' hle] at hr

theorem Rests.frame_le_firstHold {t : Track} (hh : t.hasHold = true) {time : Nat} {r : Nat × Nat}
    (h : t.Rests 0 time r) : r.1 ≤ t.firstHold := by
  rcases Nat.lt_or_ge time (t.before t.firstHold) with hlt | hge
  · obtain ⟨k, hk, hle, hspan⟩ := exists_span hlt
    rw [h.unique (rests_in_front hh hk hle hspan)]
    exact hk.le
  · rw [h.unique (rests_at_firstHold hh hge)]

end Track

namespace Cursor

/-- A cursor on which no time was spent: just made, just moved to a track, or put in place by a switch
of a controller. -/
inductive Unspent : Cursor → Prop where
  | made (ref : TrackRef) : Unspent (.start ref)
  | moved (c : Cursor) (ref : TrackRef) : Unspent (c.switchTrack ref)
  | switched {s : Store} {e : Entity} {w : Entity.Switch} {c : Cursor} (switch : e.switch? s = some w)
      (cursor : w.cursor = some c) : Unspent c

theorem Unspent.eq_start {c : Cursor} (h : c.Unspent) : c = .start c.track := by
  cases h with
  | made ref => rfl
  | moved c ref => exact c.switchTrack_eq_start ref
  | switched switch cursor =>
    obtain ⟨_, _, _, _, _, _, _, _, _, _, hstart⟩ := (Entity.switch?_eq_some_iff ..).mp switch
    -- The tile that was switched to starts without a cursor or with one at the start.
    rcases Store.start_cursor hstart with hc | ⟨ref, hc⟩
    · rw [cursor] at hc
      cases hc
    · rw [cursor] at hc
      cases hc
      rfl

theorem Unspent.origin {c : Cursor} (h : c.Unspent) (t : Track) : c.origin t = (0, 0) := by
  rw [h.eq_start]
  exact origin_of_lt t.length_pos

theorem Unspent.advanceAll_rests {c : Cursor} (h : c.Unspent) {t : Track} (live : t.Live)
    {deltas : List UInt32} (hne : deltas ≠ []) :
    t.Rests 0 (totalMs deltas)
      ((c.advanceAll t deltas).frame, (c.advanceAll t deltas).elapsedMs.toNat) := by
  have hr := Cursor.advanceAll_rests (c := c) live hne
  rwa [h.origin t, Nat.zero_add] at hr

/-- Playback from the start of a track that holds comes to its first hold exactly when the frames
before it are over, and stays there: the hold takes the rest of the time and counts it up to the
threshold, and no frame behind it is ever shown. Until then the frame is the one whose span holds
the total of the deltas. -/
theorem advanceAll_parks_at_firstHold (t : Track) (hh : t.hasHold = true) (c : Cursor)
    (hc : c.Unspent) (deltas : List UInt32) (hne : deltas ≠ []) :
    (t.before t.firstHold ≤ totalMs deltas →
      (c.advanceAll t deltas).frame = t.firstHold ∧
      (c.advanceAll t deltas).isHolding t = true ∧
      (c.advanceAll t deltas).elapsedMs.toNat =
        min (totalMs deltas - t.before t.firstHold) t.policy.thresholdMs.toNat) ∧
    (totalMs deltas < t.before t.firstHold →
      ∃ k < t.firstHold, t.before k ≤ totalMs deltas ∧ totalMs deltas < t.before (k + 1) ∧
        (c.advanceAll t deltas).frame = k ∧
        (c.advanceAll t deltas).elapsedMs.toNat = totalMs deltas - t.before k) ∧
    ∀ ds, (c.advanceAll t ds).frame ≤ t.firstHold := by
  have live : t.Live := Or.inl hh
  have hr := hc.advanceAll_rests live hne
  refine ⟨?_, ?_, ?_⟩
  · intro hreached
    have hrest := hr.unique (Track.rests_at_firstHold hh hreached)
    have hframe : (c.advanceAll t deltas).frame = t.firstHold := congrArg Prod.fst hrest
    refine ⟨hframe, ?_, congrArg Prod.snd hrest⟩
    rw [isHolding_eq, hframe]
    exact Track.holdsAt_firstHold hh
  · intro hearly
    obtain ⟨k, hk, hle, hlt⟩ := Track.exists_span hearly
    have hrest := hr.unique (Track.rests_in_front hh hk hle hlt)
    exact ⟨k, hk, hle, hlt, congrArg Prod.fst hrest, congrArg Prod.snd hrest⟩
  · intro ds
    rcases List.eq_nil_or_concat ds with rfl | ⟨_, _, rfl⟩
    · -- Nothing was spent yet, and the cursor still stands on the first frame.
      rw [hc.eq_start]
      exact Nat.zero_le _
    · exact (hc.advanceAll_rests live (by simp)).frame_le_firstHold hh

/-- A low threshold that makes two frames hold, behind one that takes no time: two of the longest
deltas end on the first of them, with the threshold on it. -/
theorem advanceAll_parks_at_firstHold_twice :
    let t : Track :=
      ⟨⟨120, false⟩, [⟨1, 0⟩, ⟨2, 100⟩, ⟨3, 120⟩, ⟨4, 50⟩, ⟨5, 400⟩], by simp⟩
    let c : Cursor := .start ⟨"doors.json", 0⟩
    t.hasHold = true ∧ c.Unspent ∧
      c.advanceAll t [0xFFFFFFFF, 0xFFFFFFFF] = ⟨⟨"doors.json", 0⟩, 2, 120, false⟩ ∧
      (c.advanceAll t [0xFFFFFFFF, 0xFFFFFFFF]).isHolding t = true ∧
      (c.advanceAll t [0xFFFFFFFF]).frame ≤ 2 := by
  intro t c
  have hh : t.hasHold = true := by decide
  have hc : c.Unspent := .made _
  obtain ⟨hreached, _, hnever⟩ :=
    advanceAll_parks_at_firstHold t hh c hc [0xFFFFFFFF, 0xFFFFFFFF] (by simp)
  have hpark := hreached (by decide)
  exact ⟨hh, hc, by decide, hpark.2.1, hnever [0xFFFFFFFF]⟩

end Cursor

end TileWorld
